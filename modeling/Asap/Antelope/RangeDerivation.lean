import Mathlib
import Asap.Antelope.AqlCondition

/-!
# Derived ranges

Before the tuples are read, a range is derived for each variable of the condition, and an index is
searched for the values of the range only. Ranges are intersected under an `AND` and joined under an
`OR`. A side that has no range for a variable says nothing of it, but the range of the other side is
taken under an `OR` as well. A relation is not turned around if the number stands in front of the
variable, and of two numbers the second one is taken for a variable.

## Main definitions

* `RawCondition`, `readCondition` — a condition as it is read from its code.
* `RawCondition.derived`, `RawCondition.value` — its ranges and its value.
* `lvmGetDerivedRange`, `selectIndex` — the range of an attribute, and the index that is searched.
* `RangesSound` — no row with the condition is outside a range.
* `RawCondition.Ordered` — when that is so.

## Main results

* `ranges_sound` — ranges are sound under the condition, and only then if no variable occurs twice.
-/

namespace Asap.Antelope

open Lib List

/-! ## The index that is searched -/

/-- `lvm_get_derived_range`, if there is a range for the variable of this name. -/
def lvmGetDerivedRange (names : List Name) (d : Derivations) (name : Name) : Option (Long × Long) :=
  ((List.range lvmMaxVariableId).find? fun i => names.getD i [] = name).bind d

/-- An attribute of the relation, and whether it has an index. -/
structure IndexedAttribute where
  name : Name
  index : Bool

/-- `select_index`: the attribute whose index is searched, and the range. The least range so far is
never noted. -/
def selectIndex (attributes : List IndexedAttribute) (range : Name → Option (Long × Long)) :
    Option (Name × Long × Long) :=
  let minRange := BitVec.allOnes 32
  attributes.foldl (fun chosen attr =>
    match range attr.name with
    | none => chosen
    | some (min, max) =>
      if attr.index ∧ max - min ≤ minRange then some (attr.name, min, max) else chosen) none

/-! ## Conditions in the code -/

/-- A condition as it is read from its code. -/
inductive RawCondition
  | comparison (op : BitVec 32) (left right : RawOperand)
  | and (left right : RawCondition)
  | or (left right : RawCondition)

/-- The operand at an offset. -/
def rawOperand (code : ℕ → Byte) (ip : ℕ) : RawOperand :=
  ⟨read32 code ip, read32 code (ip + 4), (code (ip + 4)).toNat⟩

/-- The condition at an offset, and where it ends: a node of each connective and relation, and
operands that are no expressions. -/
def readCondition (code : ℕ → Byte) : ℕ → ℕ → Option (RawCondition × ℕ)
  | 0, _ => none
  | fuel + 1, ip =>
    let op := read32 code (ip + 4)
    if read32 code ip ≠ lvmCmpOp then none
    else if isConnective op then
      (readCondition code fuel (ip + 8)).bind fun l =>
        (readCondition code fuel l.2).bind fun r =>
          if op = RelOp.and.word then some (.and l.1 r.1, r.2)
          else if op = RelOp.or.word then some (.or l.1 r.1, r.2)
          else none
    else if read32 code (ip + 8) = lvmOperand ∧ read32 code (ip + 20) = lvmOperand then
      some (.comparison op (rawOperand code (ip + 12)) (rawOperand code (ip + 24)), ip + 32)
    else none

namespace RawOperand

/-- `operand_to_long` -/
def toLong (o : RawOperand) (values : ℕ → Long) : Long :=
  if o.type = 2 then o.value else if o.type = 0 then values o.id else 0

/-- The operand of two that is taken for the variable. -/
def variableId (a b : RawOperand) : ℕ := if a.type = 0 then a.id else b.id

/-- The operand of two that is taken for the number. -/
def constant (a b : RawOperand) : Long := if a.type = 0 then b.value else a.value

end RawOperand

namespace RawCondition

open RawOperand

/-- The ranges of a condition, if they can be derived. -/
def derived : RawCondition → Option Derivations
  | comparison op a b =>
    if (a.type = 0 ∧ b.type = 0) ∨ variableId a b ≥ lvmMaxVariableId then none
    else (derivedRange op (constant a b)).map fun range i =>
      if i = variableId a b then some range else none
  | and left right => left.derived.bind fun d₁ => right.derived.map (createIntersection d₁)
  | or left right => left.derived.bind fun d₁ => right.derived.map (createUnion d₁)

/-- Whether a condition is true. -/
def value (values : ℕ → Long) : RawCondition → Bool
  | comparison op a b => (relation op (a.toLong values) (b.toLong values)) = .ok true
  | and left right => left.value values && right.value values
  | or left right => left.value values || right.value values

/-- Whether ranges are derived from a condition. -/
def Derivable : RawCondition → Prop
  | comparison op a b =>
    ¬ (a.type = 0 ∧ b.type = 0) ∧ variableId a b < lvmMaxVariableId ∧
      derivedRange op (constant a b) ≠ none
  | and left right => left.Derivable ∧ right.Derivable
  | or left right => left.Derivable ∧ right.Derivable

/-- The relation is not turned around for a number in front of the variable. These are the relations
that are the same, or for which the range is that of all values, or which are never true. -/
def SameAround (op : BitVec 32) (value : Long) : Prop :=
  op = RelOp.eq.word ∨
    (op = RelOp.ge.word ∨ op = RelOp.le.word) ∧
      (value = BitVec.intMin 32 ∨ value = BitVec.intMax 32) ∨
    op = RelOp.geq.word ∧ value = BitVec.intMin 32 ∨
    op = RelOp.leq.word ∧ value = BitVec.intMax 32

/-- The condition says something of a variable. -/
def Constrains (i : ℕ) : RawCondition → Prop
  | comparison op a b =>
    i = variableId a b ∧
      derivedRange op (constant a b) ≠ some (BitVec.intMin 32, BitVec.intMax 32)
  | and left right => left.Constrains i ∨ right.Constrains i
  | or left right => left.Constrains i ∨ right.Constrains i

/-- A variable stands in front of each number, and both sides of an `OR` say something of the same
variables. -/
def Ordered : RawCondition → Prop
  | comparison op a b =>
    a.type = 0 ∧ b.type = 2 ∨ a.type = 2 ∧ b.type = 0 ∧ SameAround op a.value
  | and left right => left.Ordered ∧ right.Ordered
  | or left right =>
    left.Ordered ∧ right.Ordered ∧
      ∀ i < lvmMaxVariableId, left.Constrains i ↔ right.Constrains i

instance (op : BitVec 32) (value : Long) : Decidable (SameAround op value) :=
  inferInstanceAs (Decidable (_ ∨ _ ∨ _ ∨ _))

/-- Whether a condition says something of a variable is decided. -/
def decidableConstrains (i : ℕ) : (c : RawCondition) → Decidable (c.Constrains i)
  | comparison _ _ _ => inferInstanceAs (Decidable (_ ∧ _))
  | and left right =>
    @instDecidableOr _ _ (decidableConstrains i left) (decidableConstrains i right)
  | or left right =>
    @instDecidableOr _ _ (decidableConstrains i left) (decidableConstrains i right)

instance (i : ℕ) (c : RawCondition) : Decidable (c.Constrains i) := decidableConstrains i c

/-- Whether a condition is ordered is decided. -/
def decidableOrdered : (c : RawCondition) → Decidable c.Ordered
  | comparison _ _ _ => inferInstanceAs (Decidable (_ ∧ _ ∨ _ ∧ _ ∧ _))
  | and left right => @instDecidableAnd _ _ (decidableOrdered left) (decidableOrdered right)
  | or left right =>
    @instDecidableAnd _ _ (decidableOrdered left)
      (@instDecidableAnd _ _ (decidableOrdered right)
        (inferInstanceAs (Decidable (∀ i < lvmMaxVariableId, _ ↔ _))))

instance (c : RawCondition) : Decidable c.Ordered := decidableOrdered c

/-- The variables of a condition. -/
def ids : RawCondition → List ℕ
  | comparison _ a b => [variableId a b]
  | and left right => left.ids ++ right.ids
  | or left right => left.ids ++ right.ids

/-- Each variable is compared once, to a number that is not extreme. -/
def Linear : RawCondition → Prop
  | comparison _ a b =>
    (a.type = 0 ∧ b.type = 2 ∨ a.type = 2 ∧ b.type = 0) ∧
      constant a b ≠ BitVec.intMin 32 ∧ constant a b ≠ BitVec.intMax 32
  | and left right => left.Linear ∧ right.Linear ∧ left.ids.Disjoint right.ids
  | or left right => left.Linear ∧ right.Linear ∧ left.ids.Disjoint right.ids

end RawCondition

/-- No tuple for which the condition is true has a value outside a range that was derived, and so
none is outside the range that the index is searched for. -/
def RangesSound (code : ℕ → Byte) (names : List Name) : Prop :=
  ∀ (fuel fuel' : ℕ) (d : Derivations) (r r' : Reader) (ρ : Name → Long),
    lvmDerive code fuel = some (.ok d, r) →
    lvmExecute code (valuesOf names ρ) fuel' = some (.ok true, r') →
    (∀ name min max, lvmGetDerivedRange names d name = some (min, max) →
      (ρ name).toInt ∈ Set.Icc min.toInt max.toInt) ∧
    ∀ attributes name min max,
      selectIndex attributes (lvmGetDerivedRange names d) = some (name, min, max) →
      (ρ name).toInt ∈ Set.Icc min.toInt max.toInt

/-! ## Operands and words -/

section Words

variable {code : ℕ → Byte} {values : ℕ → Long} {r : Reader}

theorem deriveOperand_ok {o : RawOperand} {r' : Reader}
    (h : deriveOperand code r = (.ok o, r')) :
    read32 code r.ip = lvmOperand ∧ o = rawOperand code (r.ip + 4) ∧ r'.ip = r.ip + 12 := by
  rw [deriveOperand] at h
  by_cases htype : read32 code r.ip = lvmOperand
  · rw [getWord, if_neg (not_not.mpr htype)] at h
    cases h
    exact ⟨htype, rfl, rfl⟩
  · rw [getWord, if_pos htype] at h
    cases h

theorem deriveOperand_of_operand (h : read32 code r.ip = lvmOperand) :
    deriveOperand code r =
      (.ok (rawOperand code (r.ip + 4)), { r with ip := r.ip + 12 }) := by
  rw [deriveOperand]
  simp only [getWord, ne_eq, h, not_true_eq_false, if_false]
  rfl

theorem getOperand_toLong (code : ℕ → Byte) (values : ℕ → Long) (r : Reader) :
    (getOperand code values r).1 = (rawOperand code r.ip).toLong values ∧
      (getOperand code values r).2.ip = r.ip + 8 := by
  rw [getOperand, rawOperand, RawOperand.toLong]
  split
  · exact ⟨rfl, rfl⟩
  · split
    · exact ⟨rfl, rfl⟩
    · exact ⟨rfl, rfl⟩

/-- **An operand** is read with its value. -/
theorem evalArg_operand {expr : BitVec 32 → Reader → Option (Run Long)}
    (h : read32 code r.ip = lvmOperand) :
    ∃ r', evalArg code values expr r = some (.ok ((rawOperand code (r.ip + 4)).toLong values), r') ∧
      r'.ip = r.ip + 12 := by
  obtain ⟨hvalue, hip⟩ := getOperand_toLong code values { r with ip := r.ip + 4 }
  refine ⟨_, ?_, hip⟩
  have harith : lvmOperand ≠ lvmArithOp := by decide
  rw [evalArg]
  simp only [getWord, h, if_neg harith, if_true]
  rw [hvalue]

theorem bindRun_eq_ok {α β : Type} {m : Option (Run α)} {k : α → Reader → Option (Run β)} {b : β}
    {r' : Reader} (h : bindRun m k = some (.ok b, r')) :
    ∃ a r, m = some (.ok a, r) ∧ k a r = some (.ok b, r') := by
  rcases m with _ | ⟨e | a, r⟩
  · cases h
  · cases h
  · exact ⟨a, r, rfl, h⟩

/-- What is derived from two operands. -/
theorem deriveOperands_eq_ok {op : BitVec 32} {a b : RawOperand} {d : Derivations} {r' : Reader} :
    deriveOperands op a b r = (.ok d, r') ↔
      (RawCondition.comparison op a b).derived = some d ∧
        r' = { r with ids := r.ids ++ [RawOperand.variableId a b] } := by
  rw [deriveOperands, RawCondition.derived, RawOperand.variableId, RawOperand.constant]
  by_cases hboth : a.type = 0 ∧ b.type = 0
  · simp [hboth]
  · rw [if_neg hboth]
    generalize (if a.type = 0 then a.id else b.id) = id
    generalize (if a.type = 0 then b.value else a.value) = value
    by_cases hid : id ≥ lvmMaxVariableId
    · simp [hid]
    · simp only [if_neg hid, if_neg (not_or.mpr ⟨hboth, hid⟩)]
      cases derivedRange op value with
      | none => simp
      | some range =>
        simp only [Option.map_some, Option.some.injEq, Prod.mk.injEq, Except.ok.injEq]
        exact and_congr_right fun _ => eq_comm

theorem deriveOperands_of_derived {op : BitVec 32} {a b : RawOperand} {d : Derivations}
    (h : (RawCondition.comparison op a b).derived = some d) (r : Reader) :
    ∃ r', deriveOperands op a b r = (.ok d, r') ∧ r'.ip = r.ip :=
  ⟨_, deriveOperands_eq_ok.mpr ⟨h, rfl⟩, rfl⟩

end Words

/-! ## Values within ranges -/

/-- A value is within a range, if there is one. -/
def Within (range : Option (Long × Long)) (v : Long) : Prop :=
  ∀ min max, range = some (min, max) → v.toInt ∈ Set.Icc min.toInt max.toInt

section Ranges

variable {d₁ d₂ : Derivations} {i : ℕ} {v : Long}

theorem within_none : Within none v := fun _ _ h => absurd h (Option.some_ne_none _).symm

theorem within_some {min max : Long} :
    Within (some (min, max)) v ↔ min.toInt ≤ v.toInt ∧ v.toInt ≤ max.toInt := by
  constructor
  · intro h
    exact h min max rfl
  · rintro h _ _ ⟨⟩
    exact h

/-- The bounds of a value. -/
theorem long_bounds (v : Long) : -2 ^ 31 ≤ v.toInt ∧ v.toInt < 2 ^ 31 :=
  ⟨BitVec.le_toInt v, BitVec.toInt_lt⟩

theorem toInt_intMin : (BitVec.intMin 32).toInt = -2 ^ 31 := by decide

theorem toInt_intMax : (BitVec.intMax 32).toInt = 2 ^ 31 - 1 := by decide

theorem within_full (v : Long) : Within (some (BitVec.intMin 32, BitVec.intMax 32)) v := by
  obtain ⟨hlow, hhigh⟩ := long_bounds v
  rw [within_some, toInt_intMin, toInt_intMax]
  omega

theorem within_createIntersection :
    Within (createIntersection d₁ d₂ i) v ↔ Within (d₁ i) v ∧ Within (d₂ i) v := by
  rw [createIntersection]
  cases h₁ : d₁ i with
  | none =>
    simp only [within_none, true_and]
  | some a =>
    cases h₂ : d₂ i with
    | none =>
      simp only [within_none, and_true]
    | some b =>
      obtain ⟨min₁, max₁⟩ := a
      obtain ⟨min₂, max₂⟩ := b
      simp only [within_some, BitVec.slt_iff_toInt_lt]
      split <;> split <;> omega

/-- The union is an upper bound where both have a range. -/
theorem within_createUnion {a b : Long × Long} (h₁ : d₁ i = some a) (h₂ : d₂ i = some b)
    (h : Within (d₁ i) v ∨ Within (d₂ i) v) : Within (createUnion d₁ d₂ i) v := by
  obtain ⟨min₁, max₁⟩ := a
  obtain ⟨min₂, max₂⟩ := b
  rw [h₁, h₂] at h
  rw [createUnion, h₁, h₂]
  simp only [within_some, BitVec.slt_iff_toInt_lt] at h ⊢
  split <;> split <;> omega

/-- There is no range, or the one of all values. -/
def Unbounded (range : Option (Long × Long)) : Prop :=
  range = none ∨ range = some (BitVec.intMin 32, BitVec.intMax 32)

theorem Unbounded.within {range : Option (Long × Long)} (h : Unbounded range) (v : Long) :
    Within range v := by
  rcases h with rfl | rfl
  · exact within_none
  · exact within_full v

theorem unbounded_createIntersection (h₁ : Unbounded (d₁ i)) (h₂ : Unbounded (d₂ i)) :
    Unbounded (createIntersection d₁ d₂ i) := by
  rw [createIntersection]
  rcases h₁ with h₁ | h₁ <;> rcases h₂ with h₂ | h₂ <;> rw [h₁, h₂]
  · exact .inl rfl
  · exact .inr rfl
  · exact .inr rfl
  · simp only [ite_self]
    exact .inr rfl

theorem unbounded_createUnion (h₁ : Unbounded (d₁ i)) (h₂ : Unbounded (d₂ i)) :
    Unbounded (createUnion d₁ d₂ i) := by
  rw [createUnion]
  rcases h₁ with h₁ | h₁ <;> rcases h₂ with h₂ | h₂ <;> rw [h₁, h₂]
  · exact .inl rfl
  · exact .inr rfl
  · exact .inr rfl
  · simp only [ite_self]
    exact .inr rfl

end Ranges

/-! ## The range of a relation -/

section Relations

variable {op : BitVec 32} {k v : Long} {range : Long × Long}

theorem toInt_add_one (k : Long) :
    (k + 1).toInt = if k.toInt = 2 ^ 31 - 1 then -2 ^ 31 else k.toInt + 1 := by
  obtain ⟨hlow, hhigh⟩ := long_bounds k
  have hone : (1 : Long).toInt = 1 := by decide
  rw [BitVec.toInt_add, hone, Int.bmod_def]
  split <;> split <;> omega

theorem toInt_sub_one (k : Long) :
    (k - 1).toInt = if k.toInt = -2 ^ 31 then 2 ^ 31 - 1 else k.toInt - 1 := by
  obtain ⟨hlow, hhigh⟩ := long_bounds k
  have hone : (1 : Long).toInt = 1 := by decide
  rw [BitVec.toInt_sub, hone, Int.bmod_def]
  split <;> split <;> omega

/-- The relations that give a range, with what they say and what the range is. -/
inductive RelationRange : BitVec 32 → Long → Long × Long → (ℤ → ℤ → Prop) → Prop
  | eq (k : Long) : RelationRange RelOp.eq.word k (k, k) (· = ·)
  | ge (k : Long) : RelationRange RelOp.ge.word k (k + 1, BitVec.intMax 32) (· > ·)
  | geq (k : Long) : RelationRange RelOp.geq.word k (k, BitVec.intMax 32) (· ≥ ·)
  | le (k : Long) : RelationRange RelOp.le.word k (BitVec.intMin 32, k - 1) (· < ·)
  | leq (k : Long) : RelationRange RelOp.leq.word k (BitVec.intMin 32, k) (· ≤ ·)

theorem relationRange_of_derivedRange (h : derivedRange op k = some range) :
    ∃ holds, RelationRange op k range holds := by
  rw [derivedRange] at h
  split at h
  · rename_i hop
    cases h
    subst hop
    exact ⟨_, RelationRange.eq k⟩
  · split at h
    · rename_i hop
      cases h
      subst hop
      exact ⟨_, RelationRange.ge k⟩
    · split at h
      · rename_i hop
        cases h
        subst hop
        exact ⟨_, RelationRange.geq k⟩
      · split at h
        · rename_i hop
          cases h
          subst hop
          exact ⟨_, RelationRange.le k⟩
        · split at h
          · rename_i hop
            cases h
            subst hop
            exact ⟨_, RelationRange.leq k⟩
          · cases h

section

variable {holds : ℤ → ℤ → Prop} (h : RelationRange op k range holds)

include holds h

/-- Such a relation of two values. -/
theorem RelationRange.relation_iff (a b : Long) :
    relation op a b = .ok true ↔ holds a.toInt b.toInt := by
  cases h with
  | eq =>
    change Except.ok (decide (a = b)) = _ ↔ _
    simp [BitVec.toInt_inj]
  | ge =>
    change Except.ok (b.slt a) = _ ↔ _
    simp [BitVec.slt_iff_toInt_lt]
  | geq =>
    change Except.ok (b.sle a) = _ ↔ _
    simp [BitVec.sle_iff_toInt_le]
  | le =>
    change Except.ok (a.slt b) = _ ↔ _
    simp [BitVec.slt_iff_toInt_lt]
  | leq =>
    change Except.ok (a.sle b) = _ ↔ _
    simp [BitVec.sle_iff_toInt_le]

/-- **The range of a relation to a number** contains what the relation allows, and there is nothing
else in it unless the number is extreme. -/
theorem RelationRange.within_iff (v : Long) :
    (holds v.toInt k.toInt → Within (some range) v) ∧
      (k ≠ BitVec.intMin 32 → k ≠ BitVec.intMax 32 →
        Within (some range) v → holds v.toInt k.toInt) := by
  obtain ⟨hlow, hhigh⟩ := long_bounds v
  obtain ⟨hlow', hhigh'⟩ := long_bounds k
  rw [← BitVec.toInt_ne, ← BitVec.toInt_ne, toInt_intMin, toInt_intMax]
  cases h <;>
    simp only [within_some, toInt_add_one, toInt_sub_one, toInt_intMin, toInt_intMax] <;>
    constructor <;> intros <;> (try split) <;> omega

/-- The range contains what the relation allows around the number, if they are the same. -/
theorem RelationRange.within_of_sameAround
    (hsame : RawCondition.SameAround op k) (hvalue : holds k.toInt v.toInt) :
    Within (some range) v := by
  obtain ⟨hlow, hhigh⟩ := long_bounds v
  have hmin : k = BitVec.intMin 32 ↔ k.toInt = -2 ^ 31 := by
    rw [← BitVec.toInt_inj, toInt_intMin]
  have hmax : k = BitVec.intMax 32 ↔ k.toInt = 2 ^ 31 - 1 := by
    rw [← BitVec.toInt_inj, toInt_intMax]
  rw [RawCondition.SameAround, hmin, hmax] at hsame
  cases h <;>
    simp only [RelOp.word, BitVec.reduceEq, false_and, true_and, or_false, false_or] at hsame <;>
    simp only [within_some, toInt_add_one, toInt_sub_one, toInt_intMin, toInt_intMax] <;>
    (try split) <;> omega

/-- If the number is not extreme, the relation can be true in either order, and there is a value
outside the range; around a number, there is such a value unless they are the same. -/
theorem RelationRange.outside (hmin : k ≠ BitVec.intMin 32) (hmax : k ≠ BitVec.intMax 32) :
    (∃ x : Long, holds x.toInt k.toInt) ∧ (∃ x : Long, holds k.toInt x.toInt) ∧
      ∃ x : Long, ¬ Within (some range) x ∧
        (¬ RawCondition.SameAround op k → holds k.toInt x.toInt) := by
  obtain ⟨hlow, hhigh⟩ := long_bounds k
  rw [← BitVec.toInt_ne, toInt_intMin] at hmin
  rw [← BitVec.toInt_ne, toInt_intMax] at hmax
  cases h with
  | eq =>
    refine ⟨⟨k, rfl⟩, ⟨k, rfl⟩, BitVec.intMax 32, ?_, fun h => absurd (.inl rfl) h⟩
    rw [within_some, toInt_intMax]
    omega
  | ge =>
    refine ⟨⟨BitVec.intMax 32, ?_⟩, ⟨BitVec.intMin 32, ?_⟩, BitVec.intMin 32, ?_, fun _ => ?_⟩
    · rw [toInt_intMax]
      omega
    · rw [toInt_intMin]
      omega
    · rw [within_some, toInt_intMin, toInt_add_one, if_neg hmax]
      omega
    · rw [toInt_intMin]
      omega
  | geq =>
    refine ⟨⟨k, le_refl _⟩, ⟨k, le_refl _⟩, BitVec.intMin 32, ?_, fun _ => ?_⟩
    · rw [within_some, toInt_intMin]
      omega
    · rw [toInt_intMin]
      exact hlow
  | le =>
    refine ⟨⟨BitVec.intMin 32, ?_⟩, ⟨BitVec.intMax 32, ?_⟩, BitVec.intMax 32, ?_, fun _ => ?_⟩
    · rw [toInt_intMin]
      omega
    · rw [toInt_intMax]
      omega
    · rw [within_some, toInt_intMax, toInt_sub_one, if_neg hmin]
      omega
    · rw [toInt_intMax]
      omega
  | leq =>
    refine ⟨⟨k, le_refl _⟩, ⟨k, le_refl _⟩, BitVec.intMax 32, ?_, fun _ => ?_⟩
    · rw [within_some, toInt_intMax]
      omega
    · rw [toInt_intMax]
      omega

end

end Relations

/-! ## Ranges of conditions -/

namespace RawCondition

open RawOperand

variable {op : BitVec 32} {a b : RawOperand} {c : RawCondition} {d : Derivations} {i : ℕ}
  {values : ℕ → Long}

theorem derivable_iff (c : RawCondition) : c.Derivable ↔ ∃ d, c.derived = some d := by
  induction c with
  | comparison op a b =>
    rw [Derivable, derived]
    constructor
    · rintro ⟨hboth, hid, hrange⟩
      obtain ⟨range, hrange⟩ := Option.ne_none_iff_exists'.mp hrange
      rw [if_neg (not_or.mpr ⟨hboth, not_le.mpr hid⟩), hrange]
      exact ⟨_, rfl⟩
    · rintro ⟨d, hd⟩
      split at hd
      · cases hd
      · rename_i h
        obtain ⟨hboth, hid⟩ := not_or.mp h
        obtain ⟨range, hrange, _⟩ := Option.map_eq_some_iff.mp hd
        exact ⟨hboth, not_le.mp hid, Option.ne_none_iff_exists'.mpr ⟨range, hrange⟩⟩
  | and left right hleft hright =>
    rw [Derivable, derived, hleft, hright]
    cases left.derived <;> cases right.derived <;> simp
  | or left right hleft hright =>
    rw [Derivable, derived, hleft, hright]
    cases left.derived <;> cases right.derived <;> simp

/-- What is derived from a comparison. -/
theorem derived_comparison (h : (comparison op a b).derived = some d) :
    ∃ range, derivedRange op (constant a b) = some range ∧
      d = fun i => if i = variableId a b then some range else none := by
  rw [derived] at h
  split at h
  · cases h
  · obtain ⟨range, hrange, hd⟩ := Option.map_eq_some_iff.mp h
    exact ⟨range, hrange, hd.symm⟩

/-- A relation from which a range is derived has a value. -/
theorem relation_of_derived (h : (comparison op a b).derived = some d) :
    relation op (a.toLong values) (b.toLong values) =
      .ok ((comparison op a b).value values) := by
  obtain ⟨range, hrange, _⟩ := derived_comparison h
  obtain ⟨holds, hgives⟩ := relationRange_of_derivedRange hrange
  rw [value]
  cases hgives <;> rw [relation] <;> simp [RelOp.word]

theorem derived_and {left right : RawCondition} (h : (and left right).derived = some d) :
    ∃ d₁ d₂, left.derived = some d₁ ∧ right.derived = some d₂ ∧ d = createIntersection d₁ d₂ := by
  obtain ⟨d₁, h₁, h⟩ := Option.bind_eq_some_iff.mp h
  obtain ⟨d₂, h₂, h⟩ := Option.map_eq_some_iff.mp h
  exact ⟨d₁, d₂, h₁, h₂, h.symm⟩

theorem derived_or {left right : RawCondition} (h : (or left right).derived = some d) :
    ∃ d₁ d₂, left.derived = some d₁ ∧ right.derived = some d₂ ∧ d = createUnion d₁ d₂ := by
  obtain ⟨d₁, h₁, h⟩ := Option.bind_eq_some_iff.mp h
  obtain ⟨d₂, h₂, h⟩ := Option.map_eq_some_iff.mp h
  exact ⟨d₁, d₂, h₁, h₂, h.symm⟩

theorem isSome_createIntersection {d₁ d₂ : Derivations} (h : (d₁ i).isSome ∨ (d₂ i).isSome) :
    (createIntersection d₁ d₂ i).isSome := by
  rw [createIntersection]
  cases h₁ : d₁ i <;> cases h₂ : d₂ i <;> simp_all

theorem isSome_createUnion {d₁ d₂ : Derivations} (h : (d₁ i).isSome ∨ (d₂ i).isSome) :
    (createUnion d₁ d₂ i).isSome := by
  rw [createUnion]
  cases h₁ : d₁ i <;> cases h₂ : d₂ i <;> simp_all

/-- A variable that the condition says something of has a range, and another one is unbounded. -/
theorem derived_constrains (i : ℕ) : ∀ {c : RawCondition} {d : Derivations}, c.derived = some d →
    (c.Constrains i → (d i).isSome) ∧ (¬ c.Constrains i → Unbounded (d i)) := by
  intro c
  induction c with
  | comparison op a b =>
    intro d h
    obtain ⟨range, hrange, rfl⟩ := derived_comparison h
    rw [Constrains, hrange]
    by_cases hi : i = variableId a b
    · simp only [hi, true_and]
      exact ⟨fun _ => rfl, fun hfull => .inr (not_not.mp hfull)⟩
    · simp only [hi, false_and]
      exact ⟨False.elim, fun _ => .inl rfl⟩
  | and left right hleft hright =>
    intro d h
    obtain ⟨d₁, d₂, h₁, h₂, rfl⟩ := derived_and h
    rw [Constrains, not_or]
    constructor
    · rintro (hl | hr)
      · exact isSome_createIntersection (.inl ((hleft h₁).1 hl))
      · exact isSome_createIntersection (.inr ((hright h₂).1 hr))
    · rintro ⟨hl, hr⟩
      exact unbounded_createIntersection ((hleft h₁).2 hl) ((hright h₂).2 hr)
  | or left right hleft hright =>
    intro d h
    obtain ⟨d₁, d₂, h₁, h₂, rfl⟩ := derived_or h
    rw [Constrains, not_or]
    constructor
    · rintro (hl | hr)
      · exact isSome_createUnion (.inl ((hleft h₁).1 hl))
      · exact isSome_createUnion (.inr ((hright h₂).1 hr))
    · rintro ⟨hl, hr⟩
      exact unbounded_createUnion ((hleft h₁).2 hl) ((hright h₂).2 hr)

theorem value_variable_left {holds : ℤ → ℤ → Prop} {range : Long × Long}
    (h : RelationRange op (constant a b) range holds) (ha : a.type = 0) (hb : b.type = 2) :
    (comparison op a b).value values = true ↔
      holds (values (variableId a b)).toInt (constant a b).toInt := by
  have hleft : a.toLong values = values (variableId a b) := by
    rw [toLong, variableId, ha]
    rfl
  have hright : b.toLong values = constant a b := by
    rw [toLong, constant, ha, hb]
    rfl
  rw [value, decide_eq_true_eq, h.relation_iff, hleft, hright]

theorem value_variable_right {holds : ℤ → ℤ → Prop} {range : Long × Long}
    (h : RelationRange op (constant a b) range holds) (ha : a.type = 2) (hb : b.type = 0) :
    (comparison op a b).value values = true ↔
      holds (constant a b).toInt (values (variableId a b)).toInt := by
  have hleft : a.toLong values = constant a b := by
    rw [toLong, constant, ha]
    rfl
  have hright : b.toLong values = values (variableId a b) := by
    rw [toLong, variableId, ha, hb]
    rfl
  rw [value, decide_eq_true_eq, h.relation_iff, hleft, hright]

/-- **The range of a comparison** whose number stands behind the variable, or need not. -/
theorem comparison_sound (h : (comparison op a b).derived = some d)
    (hordered : (comparison op a b).Ordered) (hvalue : (comparison op a b).value values = true)
    (i : ℕ) : Within (d i) (values i) := by
  obtain ⟨range, hrange, rfl⟩ := derived_comparison h
  by_cases hi : i = variableId a b
  · subst hi
    simp only [if_true]
    obtain ⟨holds, hgives⟩ := relationRange_of_derivedRange hrange
    rcases hordered with ⟨ha, hb⟩ | ⟨ha, hb, hsame⟩
    · exact (hgives.within_iff _).1 ((value_variable_left hgives ha hb).mp hvalue)
    · have hconstant : a.value = constant a b := by
        rw [constant, ha]
        rfl
      rw [hconstant] at hsame
      exact hgives.within_of_sameAround hsame ((value_variable_right hgives ha hb).mp hvalue)
  · simp only [if_neg hi]
    exact within_none

/-- **Ranges are sound** for a condition that is ordered. -/
theorem derived_sound : ∀ {c : RawCondition} {d : Derivations}, c.derived = some d → c.Ordered →
    c.value values = true → ∀ i < lvmMaxVariableId, Within (d i) (values i) := by
  intro c
  induction c with
  | comparison op a b =>
    intro d h hordered hvalue i _
    exact comparison_sound h hordered hvalue i
  | and left right hleft hright =>
    intro d h hordered hvalue i hi
    obtain ⟨d₁, d₂, h₁, h₂, rfl⟩ := derived_and h
    obtain ⟨hvalue₁, hvalue₂⟩ := Bool.and_eq_true_iff.mp hvalue
    exact within_createIntersection.mpr
      ⟨hleft h₁ hordered.1 hvalue₁ i hi, hright h₂ hordered.2 hvalue₂ i hi⟩
  | or left right hleft hright =>
    intro d h hordered hvalue i hi
    obtain ⟨d₁, d₂, h₁, h₂, rfl⟩ := derived_or h
    obtain ⟨hordered₁, hordered₂, hsame⟩ := hordered
    obtain ⟨hsome₁, hunbounded₁⟩ := derived_constrains i h₁
    obtain ⟨hsome₂, hunbounded₂⟩ := derived_constrains i h₂
    by_cases hconstrains : left.Constrains i
    · obtain ⟨range₁, hrange₁⟩ := Option.isSome_iff_exists.mp (hsome₁ hconstrains)
      obtain ⟨range₂, hrange₂⟩ := Option.isSome_iff_exists.mp (hsome₂ ((hsame i hi).mp hconstrains))
      refine within_createUnion hrange₁ hrange₂ ?_
      rcases Bool.or_eq_true_iff.mp hvalue with hvalue₁ | hvalue₂
      · exact .inl (hleft h₁ hordered₁ hvalue₁ i hi)
      · exact .inr (hright h₂ hordered₂ hvalue₂ i hi)
    · have hother : ¬ right.Constrains i := fun h => hconstrains ((hsame i hi).mpr h)
      exact (unbounded_createUnion (hunbounded₁ hconstrains) (hunbounded₂ hother)).within _

/-! ## Conditions with each variable once -/

/-- The value of a condition depends on its variables only. -/
theorem value_congr {values' : ℕ → Long} : ∀ {c : RawCondition}, c.Linear →
    (∀ i ∈ c.ids, values i = values' i) → c.value values = c.value values' := by
  intro c
  induction c with
  | comparison op a b =>
    rintro ⟨hside, _, _⟩ h
    have hid := h (variableId a b) (List.mem_singleton.mpr rfl)
    rw [variableId] at hid
    rw [value, value, toLong, toLong, toLong, toLong]
    rcases hside with ⟨ha, hb⟩ | ⟨ha, hb⟩
    · rw [if_pos ha] at hid
      rw [ha, hb, hid]
      rfl
    · have hne : a.type ≠ 0 := by
        rw [ha]
        decide
      rw [if_neg hne] at hid
      rw [ha, hb, hid]
      rfl
  | and left right hleft hright =>
    rintro ⟨hl, hr, _⟩ h
    rw [value, value, hleft hl fun i hi => h i (mem_append_left _ hi),
      hright hr fun i hi => h i (mem_append_right _ hi)]
  | or left right hleft hright =>
    rintro ⟨hl, hr, _⟩ h
    rw [value, value, hleft hl fun i hi => h i (mem_append_left _ hi),
      hright hr fun i hi => h i (mem_append_right _ hi)]

/-- The values of the variables of a condition, and other values for the other variables. -/
def glue (c : RawCondition) (values values' : ℕ → Long) : ℕ → Long :=
  fun i => if i ∈ c.ids then values i else values' i

theorem glue_of_mem {values' : ℕ → Long} (h : i ∈ c.ids) : c.glue values values' i = values i :=
  if_pos h

theorem glue_of_not_mem {values' : ℕ → Long} (h : i ∉ c.ids) :
    c.glue values values' i = values' i := if_neg h

theorem value_glue {values' : ℕ → Long} (h : c.Linear) :
    c.value (c.glue values values') = c.value values :=
  value_congr h fun _ hi => glue_of_mem hi

theorem value_glue_of_disjoint {c' : RawCondition} {values' : ℕ → Long} (h : c'.Linear)
    (hdisjoint : c.ids.Disjoint c'.ids) :
    c'.value (c.glue values values') = c'.value values' :=
  value_congr h fun _ hi => glue_of_not_mem fun hmem => hdisjoint hmem hi

/-- A variable that is not in the condition has no range. -/
theorem derived_of_not_mem : ∀ {c : RawCondition} {d : Derivations}, c.derived = some d →
    i ∉ c.ids → d i = none := by
  intro c
  induction c with
  | comparison op a b =>
    intro d h hi
    obtain ⟨range, _, rfl⟩ := derived_comparison h
    exact if_neg fun h => hi (List.mem_singleton.mpr h)
  | and left right hleft hright =>
    intro d h hi
    obtain ⟨d₁, d₂, h₁, h₂, rfl⟩ := derived_and h
    rw [ids, mem_append, not_or] at hi
    rw [createIntersection, hleft h₁ hi.1, hright h₂ hi.2]
  | or left right hleft hright =>
    intro d h hi
    obtain ⟨d₁, d₂, h₁, h₂, rfl⟩ := derived_or h
    rw [ids, mem_append, not_or] at hi
    rw [createUnion, hleft h₁ hi.1, hright h₂ hi.2]

theorem mem_of_not_within {v : Long} (h : c.derived = some d) (hout : ¬ Within (d i) v) :
    i ∈ c.ids := by
  by_contra hi
  rw [derived_of_not_mem h hi] at hout
  exact hout within_none

theorem lt_of_mem_ids : ∀ {c : RawCondition}, c.Derivable → i ∈ c.ids → i < lvmMaxVariableId := by
  intro c
  induction c with
  | comparison op a b =>
    rintro ⟨_, hid, _⟩ hi
    rwa [List.mem_singleton.mp hi]
  | and left right hleft hright =>
    rintro ⟨hl, hr⟩ hi
    exact (List.mem_append.mp hi).elim (hleft hl) (hright hr)
  | or left right hleft hright =>
    rintro ⟨hl, hr⟩ hi
    exact (List.mem_append.mp hi).elim (hleft hl) (hright hr)

/-- The range of one side only is that of the union. -/
theorem createUnion_right {d₁ d₂ : Derivations} (h : d₁ i = none) :
    createUnion d₁ d₂ i = d₂ i := by
  rw [createUnion, h]

/-- A condition can be true. -/
theorem exists_value : ∀ {c : RawCondition} {d : Derivations}, c.derived = some d → c.Linear →
    ∃ values, c.value values = true := by
  intro c
  induction c with
  | comparison op a b =>
    rintro d h ⟨hside, hmin, hmax⟩
    obtain ⟨range, hrange, rfl⟩ := derived_comparison h
    obtain ⟨holds, hgives⟩ := relationRange_of_derivedRange hrange
    obtain ⟨⟨x, hx⟩, ⟨y, hy⟩, _⟩ := hgives.outside hmin hmax
    rcases hside with ⟨ha, hb⟩ | ⟨ha, hb⟩
    · exact ⟨fun _ => x, (value_variable_left hgives ha hb).mpr hx⟩
    · exact ⟨fun _ => y, (value_variable_right hgives ha hb).mpr hy⟩
  | and left right hleft hright =>
    rintro d h ⟨hl, hr, hdisjoint⟩
    obtain ⟨d₁, d₂, h₁, h₂, rfl⟩ := derived_and h
    obtain ⟨values₁, hvalues₁⟩ := hleft h₁ hl
    obtain ⟨values₂, hvalues₂⟩ := hright h₂ hr
    refine ⟨left.glue values₁ values₂, Bool.and_eq_true_iff.mpr ⟨?_, ?_⟩⟩
    · rw [value_glue hl, hvalues₁]
    · rw [value_glue_of_disjoint hr hdisjoint, hvalues₂]
  | or left right hleft hright =>
    rintro d h ⟨hl, hr, hdisjoint⟩
    obtain ⟨d₁, d₂, h₁, h₂, rfl⟩ := derived_or h
    obtain ⟨values₁, hvalues₁⟩ := hleft h₁ hl
    exact ⟨values₁, Bool.or_eq_true_iff.mpr (.inl hvalues₁)⟩

/-- A variable has a value outside its range. -/
theorem exists_outside : ∀ {c : RawCondition} {d : Derivations}, c.derived = some d → c.Linear →
    ∃ i v, ¬ Within (d i) v := by
  intro c
  induction c with
  | comparison op a b =>
    rintro d h ⟨hside, hmin, hmax⟩
    obtain ⟨range, hrange, rfl⟩ := derived_comparison h
    obtain ⟨holds, hgives⟩ := relationRange_of_derivedRange hrange
    obtain ⟨_, _, x, hx, _⟩ := hgives.outside hmin hmax
    refine ⟨variableId a b, x, ?_⟩
    simp only [if_true]
    exact hx
  | and left right hleft hright =>
    rintro d h ⟨hl, hr, hdisjoint⟩
    obtain ⟨d₁, d₂, h₁, h₂, rfl⟩ := derived_and h
    obtain ⟨i, v, hout⟩ := hleft h₁ hl
    exact ⟨i, v, fun hwithin => hout (within_createIntersection.mp hwithin).1⟩
  | or left right hleft hright =>
    rintro d h ⟨hl, hr, hdisjoint⟩
    obtain ⟨d₁, d₂, h₁, h₂, rfl⟩ := derived_or h
    obtain ⟨i, v, hout⟩ := hright h₂ hr
    have hi : i ∉ left.ids := fun hi => hdisjoint hi (mem_of_not_within h₂ hout)
    exact ⟨i, v, by rwa [createUnion_right (derived_of_not_mem h₁ hi)]⟩

/-- **A condition that is not ordered** is true for a value outside a range, if no variable occurs
twice: the other comparisons are true then. -/
theorem exists_unsound : ∀ {c : RawCondition} {d : Derivations}, c.derived = some d → c.Linear →
    ¬ c.Ordered → ∃ values i, c.value values = true ∧ ¬ Within (d i) (values i) := by
  intro c
  induction c with
  | comparison op a b =>
    rintro d h ⟨hside, hmin, hmax⟩ hordered
    obtain ⟨range, hrange, rfl⟩ := derived_comparison h
    obtain ⟨holds, hgives⟩ := relationRange_of_derivedRange hrange
    obtain ⟨_, _, x, hx, hsame⟩ := hgives.outside hmin hmax
    rcases hside with ⟨ha, hb⟩ | ⟨ha, hb⟩
    · exact absurd (.inl ⟨ha, hb⟩) hordered
    · have hconstant : a.value = constant a b := by
        rw [constant, ha]
        rfl
      have hnot : ¬ SameAround op (constant a b) := by
        rw [← hconstant]
        exact fun hsame => hordered (.inr ⟨ha, hb, hsame⟩)
      refine ⟨fun _ => x, variableId a b, (value_variable_right hgives ha hb).mpr (hsame hnot), ?_⟩
      simp only [if_true]
      exact hx
  | and left right hleft hright =>
    rintro d h ⟨hl, hr, hdisjoint⟩ hordered
    obtain ⟨d₁, d₂, h₁, h₂, rfl⟩ := derived_and h
    obtain ⟨values₁, hvalues₁⟩ := exists_value h₁ hl
    obtain ⟨values₂, hvalues₂⟩ := exists_value h₂ hr
    rcases not_and_or.mp hordered with hordered | hordered
    · obtain ⟨values, i, hvalue, hout⟩ := hleft h₁ hl hordered
      refine ⟨left.glue values values₂, i, Bool.and_eq_true_iff.mpr ⟨?_, ?_⟩, ?_⟩
      · rw [value_glue hl, hvalue]
      · rw [value_glue_of_disjoint hr hdisjoint, hvalues₂]
      · rw [glue_of_mem (mem_of_not_within h₁ hout)]
        exact fun hwithin => hout (within_createIntersection.mp hwithin).1
    · obtain ⟨values, i, hvalue, hout⟩ := hright h₂ hr hordered
      have hi : i ∉ left.ids := fun hi => hdisjoint hi (mem_of_not_within h₂ hout)
      refine ⟨left.glue values₁ values, i, Bool.and_eq_true_iff.mpr ⟨?_, ?_⟩, ?_⟩
      · rw [value_glue hl, hvalues₁]
      · rw [value_glue_of_disjoint hr hdisjoint, hvalue]
      · rw [glue_of_not_mem hi]
        exact fun hwithin => hout (within_createIntersection.mp hwithin).2
  | or left right hleft hright =>
    -- the left side is true, and a variable of the right side may have any value
    rintro d h ⟨hl, hr, hdisjoint⟩ _
    obtain ⟨d₁, d₂, h₁, h₂, rfl⟩ := derived_or h
    obtain ⟨values, hvalue⟩ := exists_value h₁ hl
    obtain ⟨i, v, hout⟩ := exists_outside h₂ hr
    have hi : i ∉ left.ids := fun hi => hdisjoint hi (mem_of_not_within h₂ hout)
    refine ⟨left.glue values fun _ => v, i, Bool.or_eq_true_iff.mpr (.inl ?_), ?_⟩
    · rw [value_glue hl, hvalue]
    · rw [glue_of_not_mem hi, createUnion_right (derived_of_not_mem h₁ hi)]
      exact hout

end RawCondition

/-! ## The condition that is derived from is the one that is executed -/

section Reading

variable {code : ℕ → Byte} {values : ℕ → Long} {fuel : ℕ} {r : Reader}

open RawCondition

theorem deriveRelation_connective (h : isConnective (read32 code (r.ip + 4)) = true) :
    deriveRelation code (fuel + 1) r =
      if read32 code (r.ip + 4) ≠ RelOp.and.word ∧ read32 code (r.ip + 4) ≠ RelOp.or.word then
        some (.error .derivationError, { r with ip := r.ip + 8 })
      else
        bindRun (deriveRelation code fuel { r with ip := r.ip + 8 }) fun d₁ r' =>
          bindRun (deriveRelation code fuel r') fun d₂ r' =>
            some (.ok (if read32 code (r.ip + 4) = RelOp.and.word then createIntersection d₁ d₂
              else createUnion d₁ d₂), r') := by
  rw [deriveRelation]
  exact if_pos h

theorem deriveRelation_relation (h : isConnective (read32 code (r.ip + 4)) = false) :
    deriveRelation code (fuel + 1) r =
      bindRun (some (deriveOperand code { r with ip := r.ip + 8 })) fun a r' =>
        bindRun (some (deriveOperand code r')) fun b r' =>
          some (deriveOperands (read32 code (r.ip + 4)) a b r') := by
  rw [deriveRelation]
  exact if_neg (Bool.eq_false_iff.mp h)

theorem evalCondition_connective (htype : read32 code r.ip = lvmCmpOp)
    (h : isConnective (read32 code (r.ip + 4)) = true)
    (hnot : read32 code (r.ip + 4) ≠ lvmNot) :
    evalCondition code (evalLogic code values (fuel + 1)) r =
      bindRun (evalCondition code (evalLogic code values fuel) { r with ip := r.ip + 8 }) fun a r' =>
        bindRun (evalCondition code (evalLogic code values fuel) r') fun b r' =>
          some (.ok (if read32 code (r.ip + 4) = RelOp.and.word then a && b else a || b), r') := by
  rw [evalCondition]
  refine (if_neg (not_not.mpr htype)).trans ?_
  change evalLogic code values (fuel + 1) (read32 code (r.ip + 4)) { r with ip := r.ip + 8 } = _
  rw [evalLogic, if_pos h]
  simp only [if_neg hnot]

theorem evalCondition_relation (htype : read32 code r.ip = lvmCmpOp)
    (h : isConnective (read32 code (r.ip + 4)) = false)
    (hleft : read32 code (r.ip + 8) = lvmOperand) (hright : read32 code (r.ip + 20) = lvmOperand) :
    ∃ r', evalCondition code (evalLogic code values (fuel + 1)) r =
      some (relation (read32 code (r.ip + 4)) ((rawOperand code (r.ip + 12)).toLong values)
        ((rawOperand code (r.ip + 24)).toLong values), r') ∧ r'.ip = r.ip + 32 := by
  obtain ⟨s, hs, hip⟩ := @evalArg_operand code values { r with ip := r.ip + 8 }
    (evalExpr code values fuel) hleft
  obtain ⟨t, ht, hip'⟩ := @evalArg_operand code values s (evalExpr code values fuel)
    (by rw [hip]; exact hright)
  refine ⟨t, ?_, by rw [hip', hip]⟩
  rw [evalCondition]
  refine (if_neg (not_not.mpr htype)).trans ?_
  change evalLogic code values (fuel + 1) (read32 code (r.ip + 4)) { r with ip := r.ip + 8 } = _
  rw [evalLogic, if_neg (Bool.eq_false_iff.mp h), hs, bindRun_ok, ht, bindRun_ok, hip]

/-- What is read at an offset. -/
theorem readCondition_succ {ip ip' : ℕ} {c : RawCondition}
    (h : readCondition code (fuel + 1) ip = some (c, ip')) :
    read32 code ip = lvmCmpOp ∧
      ((isConnective (read32 code (ip + 4)) = true ∧
        ∃ l mid r, readCondition code fuel (ip + 8) = some (l, mid) ∧
          readCondition code fuel mid = some (r, ip') ∧
          (read32 code (ip + 4) = RelOp.and.word ∧ c = .and l r ∨
            read32 code (ip + 4) = RelOp.or.word ∧ c = .or l r)) ∨
      (isConnective (read32 code (ip + 4)) = false ∧ read32 code (ip + 8) = lvmOperand ∧
        read32 code (ip + 20) = lvmOperand ∧ ip' = ip + 32 ∧
        c = .comparison (read32 code (ip + 4)) (rawOperand code (ip + 12))
          (rawOperand code (ip + 24)))) := by
  rw [readCondition] at h
  by_cases htype : read32 code ip = lvmCmpOp
  · refine ⟨htype, ?_⟩
    simp only [htype, ne_eq, not_true_eq_false, if_false] at h
    cases hconnective : isConnective (read32 code (ip + 4)) with
    | true =>
      simp only [hconnective, if_true] at h
      obtain ⟨⟨l, mid⟩, hl, h⟩ := Option.bind_eq_some_iff.mp h
      obtain ⟨⟨r, stop⟩, hr, h⟩ := Option.bind_eq_some_iff.mp h
      left
      by_cases hand : read32 code (ip + 4) = RelOp.and.word
      · rw [if_pos hand] at h
        cases h
        exact ⟨rfl, l, mid, r, hl, hr, .inl ⟨hand, rfl⟩⟩
      · rw [if_neg hand] at h
        by_cases hor : read32 code (ip + 4) = RelOp.or.word
        · rw [if_pos hor] at h
          cases h
          exact ⟨rfl, l, mid, r, hl, hr, .inr ⟨hor, rfl⟩⟩
        · rw [if_neg hor] at h
          cases h
    | false =>
      simp only [hconnective, Bool.false_eq_true, if_false] at h
      by_cases hoperands : read32 code (ip + 8) = lvmOperand ∧ read32 code (ip + 20) = lvmOperand
      · rw [if_pos hoperands] at h
        cases h
        exact .inr ⟨rfl, hoperands.1, hoperands.2, rfl, rfl⟩
      · rw [if_neg hoperands] at h
        cases h
  · simp only [htype, ne_eq, not_false_eq_true, if_true] at h
    cases h

/-- More rounds than are needed do not matter. -/
theorem readCondition_mono : ∀ {fuel fuel' ip : ℕ} {result : RawCondition × ℕ}, fuel ≤ fuel' →
    readCondition code fuel ip = some result → readCondition code fuel' ip = some result := by
  intro fuel
  induction fuel with
  | zero =>
    intro fuel' ip result _ h
    cases h
  | succ fuel ih =>
    intro fuel' ip result hle h
    obtain ⟨fuel', rfl⟩ := Nat.exists_eq_add_of_le' hle
    obtain ⟨c, ip'⟩ := result
    obtain ⟨htype, hcases⟩ := readCondition_succ h
    have hle' : fuel ≤ fuel' + fuel := Nat.le_add_left _ _
    rw [← Nat.add_assoc, readCondition]
    simp only [htype, ne_eq, not_true_eq_false, if_false]
    rcases hcases with ⟨hconnective, left, mid, right, hleft, hright, hop⟩ |
      ⟨hrelation, hleft, hright, rfl, rfl⟩
    · simp only [hconnective, if_true, ih hle' hleft, ih hle' hright, Option.bind_some]
      rcases hop with ⟨hop, rfl⟩ | ⟨hop, rfl⟩
      · rw [if_pos hop]
      · rw [if_neg (by rw [hop]; decide), if_pos hop]
    · simp only [hrelation, Bool.false_eq_true, if_false, hleft, hright, and_self, if_true]

/-- **Derivation and execution read the same condition.** -/
theorem read_of_derive : ∀ (fuel fuel' : ℕ) (r₁ r₂ : Reader) {d : Derivations} {b : Bool}
    {r₁' r₂' : Reader}, r₁.ip = r₂.ip → deriveRelation code fuel r₁ = some (.ok d, r₁') →
    evalCondition code (evalLogic code values fuel') r₂ = some (.ok b, r₂') →
    ∃ c, readCondition code fuel r₁.ip = some (c, r₁'.ip) ∧ r₁'.ip = r₂'.ip ∧
      c.derived = some d ∧ c.value values = b := by
  intro fuel
  induction fuel with
  | zero =>
    intro fuel' r₁ r₂ d b r₁' r₂' _ hderive
    cases hderive
  | succ fuel ih =>
    intro fuel' r₁ r₂ d b r₁' r₂' hip hderive hexecute
    have htype : read32 code r₂.ip = lvmCmpOp := by
      by_contra htype
      rw [evalCondition] at hexecute
      cases (Prod.mk.inj (Option.some.inj ((if_pos htype).symm.trans hexecute))).1
    cases fuel' with
    | zero =>
      rw [evalCondition] at hexecute
      split at hexecute <;> cases hexecute
    | succ fuel' =>
      rw [readCondition]
      simp only [hip, htype, ne_eq, not_true_eq_false, if_false]
      cases hconnective : isConnective (read32 code (r₂.ip + 4)) with
      | true =>
        rw [deriveRelation_connective (by rw [hip]; exact hconnective), hip] at hderive
        by_cases hop : read32 code (r₂.ip + 4) ≠ RelOp.and.word ∧
            read32 code (r₂.ip + 4) ≠ RelOp.or.word
        · rw [if_pos hop] at hderive
          cases hderive
        · rw [if_neg hop] at hderive
          have hnot : read32 code (r₂.ip + 4) ≠ lvmNot := by
            intro hnot
            rw [hnot] at hop
            exact hop (by decide)
          rw [evalCondition_connective htype hconnective hnot] at hexecute
          obtain ⟨d₁, s₁, hderive₁, hderive⟩ := bindRun_eq_ok hderive
          obtain ⟨d₂, s₂, hderive₂, hderive⟩ := bindRun_eq_ok hderive
          obtain ⟨b₁, t₁, hexecute₁, hexecute⟩ := bindRun_eq_ok hexecute
          obtain ⟨b₂, t₂, hexecute₂, hexecute⟩ := bindRun_eq_ok hexecute
          obtain ⟨c₁, hread₁, hip₁, hd₁, hb₁⟩ := ih fuel' ⟨r₂.ip + 8, r₁.ids⟩
            ⟨r₂.ip + 8, r₂.ids⟩ rfl hderive₁ hexecute₁
          obtain ⟨c₂, hread₂, hip₂, hd₂, hb₂⟩ := ih fuel' _ _ hip₁ hderive₂ hexecute₂
          cases hderive
          cases hexecute
          simp only [if_true, hread₁, hread₂, Option.bind_some]
          by_cases hand : read32 code (r₂.ip + 4) = RelOp.and.word
          · simp only [if_pos hand]
            refine ⟨.and c₁ c₂, rfl, hip₂, ?_, ?_⟩
            · rw [derived, hd₁, hd₂]
              rfl
            · rw [RawCondition.value, hb₁, hb₂]
          · have hor : read32 code (r₂.ip + 4) = RelOp.or.word := by
              by_contra hor
              exact hop ⟨hand, hor⟩
            simp only [if_neg hand, if_pos hor]
            refine ⟨.or c₁ c₂, rfl, hip₂, ?_, ?_⟩
            · rw [derived, hd₁, hd₂]
              rfl
            · rw [RawCondition.value, hb₁, hb₂]
      | false =>
        rw [deriveRelation_relation (by rw [hip]; exact hconnective), hip] at hderive
        obtain ⟨a, s₁, hderive₁, hderive⟩ := bindRun_eq_ok hderive
        obtain ⟨b', s₂, hderive₂, hderive⟩ := bindRun_eq_ok hderive
        obtain ⟨hleft, ha, hip₁⟩ := deriveOperand_ok (Option.some.inj hderive₁)
        obtain ⟨hright, hb, hip₂⟩ := deriveOperand_ok (Option.some.inj hderive₂)
        obtain ⟨hd, hr₁⟩ := deriveOperands_eq_ok.mp (Option.some.inj hderive)
        rw [hip₁] at hright hb hip₂
        obtain ⟨t, ht, hip'⟩ := @evalCondition_relation code values fuel' _ htype
          hconnective hleft hright
        rw [ht] at hexecute
        obtain ⟨hrelation, rfl⟩ := Prod.mk.inj (Option.some.inj hexecute)
        rw [if_neg Bool.false_ne_true, if_pos ⟨hleft, hright⟩]
        subst ha hb hr₁
        refine ⟨_, congrArg _ (Prod.ext rfl ?_), ?_, hd, ?_⟩
        · exact hip₂.symm
        · rw [hip']
          exact hip₂
        · rw [RawCondition.value, hrelation]
          cases b <;> rfl

/-- **A condition that is read** is the one from which ranges are derived. -/
theorem derive_of_read : ∀ (fuel : ℕ) (r : Reader) {c : RawCondition} {ip' : ℕ} {d : Derivations},
    readCondition code fuel r.ip = some (c, ip') → c.derived = some d →
    ∃ r', deriveRelation code fuel r = some (.ok d, r') ∧ r'.ip = ip' := by
  intro fuel
  induction fuel with
  | zero =>
    intro r c ip' d hread
    cases hread
  | succ fuel ih =>
    intro r c ip' d hread hd
    obtain ⟨_, hcases⟩ := readCondition_succ hread
    rcases hcases with ⟨hconnective, left, mid, right, hleft, hright, hop⟩ |
      ⟨hrelation, hleft, hright, rfl, rfl⟩
    · rw [deriveRelation_connective hconnective]
      rcases hop with ⟨hop, rfl⟩ | ⟨hop, rfl⟩
      · obtain ⟨d₁, h₁, hd⟩ := Option.bind_eq_some_iff.mp hd
        obtain ⟨d₂, h₂, rfl⟩ := Option.map_eq_some_iff.mp hd
        obtain ⟨s, hs, hip⟩ := ih { r with ip := r.ip + 8 } hleft h₁
        obtain ⟨t, ht, hip'⟩ := ih s (by rw [hip]; exact hright) h₂
        refine ⟨t, ?_, hip'⟩
        simp only [hop, ne_eq, not_true_eq_false, false_and, if_false, if_true, hs, bindRun_ok, ht]
      · obtain ⟨d₁, h₁, hd⟩ := Option.bind_eq_some_iff.mp hd
        obtain ⟨d₂, h₂, rfl⟩ := Option.map_eq_some_iff.mp hd
        obtain ⟨s, hs, hip⟩ := ih { r with ip := r.ip + 8 } hleft h₁
        obtain ⟨t, ht, hip'⟩ := ih s (by rw [hip]; exact hright) h₂
        have hand : RelOp.or.word ≠ RelOp.and.word := by decide
        refine ⟨t, ?_, hip'⟩
        simp only [hop, ne_eq, not_true_eq_false, and_false, if_false, hand, hs, bindRun_ok, ht]
    · obtain ⟨s, hs, hip⟩ := deriveOperands_of_derived hd { r with ip := r.ip + 32 }
      have hfirst : deriveOperand code { r with ip := r.ip + 8 } =
          (.ok (rawOperand code (r.ip + 12)), { r with ip := r.ip + 20 }) :=
        deriveOperand_of_operand hleft
      have hsecond : deriveOperand code { r with ip := r.ip + 20 } =
          (.ok (rawOperand code (r.ip + 24)), { r with ip := r.ip + 32 }) :=
        deriveOperand_of_operand hright
      refine ⟨s, ?_, hip⟩
      rw [deriveRelation_relation hrelation, hfirst, bindRun_ok, hsecond, bindRun_ok, hs]

/-- **A condition that is read** is the one that is executed. -/
theorem execute_of_read : ∀ (fuel : ℕ) (r : Reader) {c : RawCondition} {ip' : ℕ} {d : Derivations},
    readCondition code fuel r.ip = some (c, ip') → c.derived = some d →
    ∃ r', evalCondition code (evalLogic code values fuel) r = some (.ok (c.value values), r') ∧
      r'.ip = ip' := by
  intro fuel
  induction fuel with
  | zero =>
    intro r c ip' d hread
    cases hread
  | succ fuel ih =>
    intro r c ip' d hread hd
    obtain ⟨htype, hcases⟩ := readCondition_succ hread
    rcases hcases with ⟨hconnective, left, mid, right, hleft, hright, hop⟩ |
      ⟨hrelation, hleft, hright, rfl, rfl⟩
    · rcases hop with ⟨hop, rfl⟩ | ⟨hop, rfl⟩
      · obtain ⟨d₁, h₁, hd⟩ := Option.bind_eq_some_iff.mp hd
        obtain ⟨d₂, h₂, rfl⟩ := Option.map_eq_some_iff.mp hd
        obtain ⟨s, hs, hip⟩ := ih { r with ip := r.ip + 8 } hleft h₁
        obtain ⟨t, ht, hip'⟩ := ih s (by rw [hip]; exact hright) h₂
        refine ⟨t, ?_, hip'⟩
        rw [evalCondition_connective htype hconnective (by rw [hop]; decide), hs, bindRun_ok, ht,
          bindRun_ok, if_pos hop, RawCondition.value]
      · obtain ⟨d₁, h₁, hd⟩ := Option.bind_eq_some_iff.mp hd
        obtain ⟨d₂, h₂, rfl⟩ := Option.map_eq_some_iff.mp hd
        obtain ⟨s, hs, hip⟩ := ih { r with ip := r.ip + 8 } hleft h₁
        obtain ⟨t, ht, hip'⟩ := ih s (by rw [hip]; exact hright) h₂
        refine ⟨t, ?_, hip'⟩
        rw [evalCondition_connective htype hconnective (by rw [hop]; decide), hs, bindRun_ok, ht,
          bindRun_ok, if_neg (by rw [hop]; decide), RawCondition.value]
    · obtain ⟨s, hs, hip⟩ := @evalCondition_relation code values fuel _ htype
        hrelation hleft hright
      refine ⟨s, ?_, hip⟩
      rw [hs, RawCondition.relation_of_derived hd]

end Reading

/-! ## The theorem -/

section Statements

variable {code : ℕ → Byte} {names : List Name} {d : Derivations}

/-- The index that is searched has the range of its attribute. -/
theorem range_of_selectIndex {range : Name → Option (Long × Long)} {name : Name} {min max : Long}
    (attributes : List IndexedAttribute) (h : selectIndex attributes range = some (name, min, max)) :
    range name = some (min, max) := by
  rw [selectIndex] at h
  induction attributes using reverseRecOn with
  | nil => cases h
  | append_singleton attributes attr ih =>
    rw [foldl_append, foldl_cons, foldl_nil] at h
    cases hrange : range attr.name with
    | none =>
      rw [hrange] at h
      exact ih h
    | some bounds =>
      rw [hrange] at h
      simp only at h
      split at h
      · obtain ⟨rfl, rfl, rfl⟩ := h
        exact hrange
      · exact ih h

/-- The range of a variable is found by its name. -/
theorem lvmGetDerivedRange_eq_some {name : Name} {range : Long × Long}
    (h : lvmGetDerivedRange names d name = some range) :
    ∃ i < lvmMaxVariableId, names.getD i [] = name ∧ d i = some range := by
  obtain ⟨i, hi, hrange⟩ := Option.bind_eq_some_iff.mp h
  refine ⟨i, List.mem_range.mp (List.mem_of_find?_eq_some hi), ?_, hrange⟩
  have hname := List.find?_some hi
  exact of_decide_eq_true hname

theorem getD_of_lt {i : ℕ} (hi : i < names.length) : names.getD i [] = names[i] := by
  rw [getD_eq_getElem?_getD, List.getElem?_eq_getElem hi, Option.getD_some]

theorem lvmGetDerivedRange_getElem (hnames : names.Nodup) {i : ℕ} (hi : i < names.length)
    (hmax : i < lvmMaxVariableId) : lvmGetDerivedRange names d names[i] = d i := by
  have hfind : ((range lvmMaxVariableId).find? fun j => names.getD j [] = names[i]) = some i := by
    refine List.find?_range_eq_some.mpr ⟨?_, List.mem_range.mpr hmax, fun j hj => ?_⟩
    · rw [getD_of_lt hi]
      exact decide_eq_true rfl
    · rw [getD_of_lt (hj.trans hi), Bool.not_eq_true']
      exact decide_eq_false fun h => hj.ne ((hnames.getElem_inj_iff).mp h)
  rw [lvmGetDerivedRange, hfind, Option.bind_some]

/-- Values are given by names. -/
theorem valuesOf_findIdx (hnames : names.Nodup) (values : ℕ → Long) {i : ℕ} (hi : i < names.length) :
    valuesOf names (fun name => values (names.idxOf name)) i = values i := by
  rw [valuesOf, getD_of_lt hi, hnames.idxOf_getElem]

/-- A condition is executed like an argument of a connective. -/
theorem lvmExecute_eq_ok {values : ℕ → Long} {fuel : ℕ} {b : Bool} {r : Reader} :
    lvmExecute code values fuel = some (.ok b, r) ↔
      evalCondition code (evalLogic code values fuel) ⟨0, []⟩ = some (.ok b, r) := by
  rw [lvmExecute, evalCondition]
  by_cases h : (getWord code ⟨0, []⟩).1 ≠ lvmCmpOp
  · simp [if_pos h]
  · simp only [if_neg h]

/-- **Ranges are sound** if each relation has its variable in front and both sides of each `OR` say
something of the same variables; if no variable occurs twice and no number is extreme, they are sound
in no other case. -/
theorem ranges_sound (code : ℕ → Byte) (names : List Name) :
    ((∀ fuel c ip, readCondition code fuel 0 = some (c, ip) → c.Derivable → c.Ordered) →
      RangesSound code names) ∧
    ∀ fuel c ip, readCondition code fuel 0 = some (c, ip) → c.Derivable → c.Linear →
      names.Nodup → (∀ i ∈ c.ids, i < names.length) → RangesSound code names → c.Ordered := by
  constructor
  · intro hordered fuel fuel' d r r' ρ hderive hexecute
    have hname : ∀ name min max, lvmGetDerivedRange names d name = some (min, max) →
        (ρ name).toInt ∈ Set.Icc min.toInt max.toInt := by
      intro name min max hrange
      obtain ⟨i, hi, rfl, hd⟩ := lvmGetDerivedRange_eq_some hrange
      obtain ⟨c, hread, _, hderived, hvalue⟩ :=
        read_of_derive fuel fuel' ⟨0, []⟩ ⟨0, []⟩ rfl hderive (lvmExecute_eq_ok.mp hexecute)
      have hc := hordered fuel c _ hread (c.derivable_iff.mpr ⟨d, hderived⟩)
      exact RawCondition.derived_sound hderived hc hvalue i hi min max hd
    exact ⟨hname, fun attributes name min max hselect =>
      hname name min max (range_of_selectIndex attributes hselect)⟩
  · intro fuel c ip hread hderivable hlinear hnames hids hsound
    obtain ⟨d, hd⟩ := c.derivable_iff.mp hderivable
    by_contra hordered
    obtain ⟨values, i, hvalue, hout⟩ := RawCondition.exists_unsound hd hlinear hordered
    have hmem := RawCondition.mem_of_not_within hd hout
    have hi := hids i hmem
    have hmax := RawCondition.lt_of_mem_ids hderivable hmem
    -- the attributes get the values of the variables
    have hvalues : ∀ j ∈ c.ids, values j =
        valuesOf names (fun name => values (names.idxOf name)) j :=
      fun j hj => (valuesOf_findIdx hnames values (hids j hj)).symm
    obtain ⟨r, hderive, _⟩ := derive_of_read fuel ⟨0, []⟩ hread hd
    obtain ⟨r', hexecute, _⟩ := @execute_of_read code
      (valuesOf names fun name => values (names.idxOf name)) fuel ⟨0, []⟩ _ _ _ hread hd
    rw [← RawCondition.value_congr hlinear hvalues, hvalue] at hexecute
    have hwithin := (hsound fuel fuel d r r' _ hderive (lvmExecute_eq_ok.mpr hexecute)).1
    refine hout fun min max hrange => ?_
    have hvalue := hwithin names[i] min max ((lvmGetDerivedRange_getElem hnames hi hmax).trans hrange)
    rwa [hnames.idxOf_getElem] at hvalue

end Statements

/-! ## Two queries -/

/-- The range of an attribute, and the value of the condition. -/
def rangeAndValue (s : Aql) (name : Name) (ρ : Name → Long) : Option (Long × Long) × Option Bool :=
  ((lvmDerive s.lvm.code s.lvm.codeEnd).bind fun run =>
      run.1.toOption.bind fun d => lvmGetDerivedRange s.lvm.names d name,
    (lvmExecute s.lvm.code (valuesOf s.lvm.names ρ) s.lvm.codeEnd).bind fun run => run.1.toOption)

theorem not_rangesSound {s : Aql} {name : Name} {ρ : Name → Long} {min max : Long}
    (h : rangeAndValue s name ρ = (some (min, max), some true))
    (hout : (ρ name).toInt ∉ Set.Icc min.toInt max.toInt) :
    ¬ RangesSound s.lvm.code s.lvm.names := by
  intro hsound
  obtain ⟨hrange, hvalue⟩ := Prod.mk.inj h
  obtain ⟨⟨result, r⟩, hderive, hrange⟩ := Option.bind_eq_some_iff.mp hrange
  obtain ⟨d, hd, hrange⟩ := Option.bind_eq_some_iff.mp hrange
  obtain ⟨⟨b, r'⟩, hexecute, hb⟩ := Option.bind_eq_some_iff.mp hvalue
  cases result with
  | error e => cases hd
  | ok d' =>
    cases b with
    | error e => cases hb
    | ok b' =>
      cases hd
      cases hb
      exact hout ((hsound _ _ d r r' ρ hderive hexecute).1 name min max hrange)

/-- `SELECT a FROM r WHERE a > 1 AND 5 = b;` -/
def orderedQuery : QueryString :=
  queryOf (ascii "SELECT a FROM r WHERE a > 1 AND 5 = b;") (ascii_ne_zero (by decide +kernel))

theorem orderedQuery_sound :
    ∃ status s, aqlParse orderedQuery (orderedQuery.length + 3)
        (aqlStart fun _ => unusedAttribute) = some (status, s) ∧ aqlError status = false ∧
      s.adt.condition = true ∧ RangesSound s.lvm.code s.lvm.names := by
  have hparse : (aqlParse orderedQuery (orderedQuery.length + 3)
      (aqlStart fun _ => unusedAttribute)).map (fun result =>
        (aqlError result.1, result.2.adt.condition,
          (readCondition result.2.lvm.code 2 0).map fun read => decide read.1.Ordered)) =
        some (false, true, some true) := by
    decide +kernel
  obtain ⟨⟨status, s⟩, hrun, hresult⟩ := Option.map_eq_some_iff.mp hparse
  obtain ⟨hstatus, hresult⟩ := Prod.mk.inj hresult
  obtain ⟨hcondition, hread⟩ := Prod.mk.inj hresult
  obtain ⟨⟨c, ip⟩, hread, hordered⟩ := Option.map_eq_some_iff.mp hread
  refine ⟨status, s, hrun, hstatus, hcondition, (ranges_sound _ _).1 ?_⟩
  intro fuel c' ip' hread' _
  have hle := readCondition_mono (Nat.le_max_left 2 fuel) hread
  rw [readCondition_mono (Nat.le_max_right 2 fuel) hread'] at hle
  cases hle
  exact of_decide_eq_true hordered

/-- `SELECT a FROM r WHERE a < 3 OR b < 5;` -/
def unionQuery : QueryString :=
  queryOf (ascii "SELECT a FROM r WHERE a < 3 OR b < 5;") (ascii_ne_zero (by decide +kernel))

/-- The condition is true if `a` is 1 and `b` is 10, and 4 is the greatest value of the range of
`b`. -/
theorem unionQuery_unsound :
    ∃ status s, aqlParse unionQuery (unionQuery.length + 3) (aqlStart fun _ => unusedAttribute) =
        some (status, s) ∧ aqlError status = false ∧ s.adt.condition = true ∧
      ¬ RangesSound s.lvm.code s.lvm.names := by
  have hparse : (aqlParse unionQuery (unionQuery.length + 3)
      (aqlStart fun _ => unusedAttribute)).map (fun result =>
        (aqlError result.1, result.2.adt.condition, rangeAndValue result.2 (ascii "b") fun name =>
          if name = ascii "a" then 1 else 10)) =
        some (false, true, some (BitVec.intMin 32, 4), some true) := by
    decide +kernel
  obtain ⟨⟨status, s⟩, hrun, hresult⟩ := Option.map_eq_some_iff.mp hparse
  obtain ⟨hstatus, hresult⟩ := Prod.mk.inj hresult
  obtain ⟨hcondition, hrange⟩ := Prod.mk.inj hresult
  refine ⟨status, s, hrun, hstatus, hcondition, not_rangesSound hrange ?_⟩
  rw [Set.mem_Icc]
  decide

end Asap.Antelope
