import Asap.Antelope.AqlClause
import Asap.Antelope.LvmReading

/-!
# Compiled conditions

The parser groups an operator with the operand in front of it and with what it can read behind it.
This is what is usually read if an expression has one operator, and one more in each pair of
parentheses on its right side, and if no `AND` stands in front of an `OR`. Such a condition is
accepted, and its code has the value of the condition.

## Main definitions

* `Expr.Grouped`, `Clause.Grouped` — conditions that are grouped as they are read.
* `Codes` — the code of an expression.
* `At` — where the parser is: the tokens ahead, the variables and the code.

## Main results

* `aqlParse_clause` — a condition that is grouped as it is read is compiled to its value.
-/

namespace Asap.Antelope

open Lib List Option

variable {q : QueryString} {s : Aql}

/-! ## Conditions that are grouped as they are read -/

/-- An operand of an expression. -/
inductive Expr.IsOperand : Expr → Prop
  | const (l : Long) : Expr.IsOperand (.const l)
  | attr (name : Name) : Expr.IsOperand (.attr name)

/-- An expression has one operator at most behind an operand, and so has what is in parentheses on
its right side. The parser takes so many closing parentheses behind it. -/
inductive Expr.Closes : Expr → ℕ → Prop
  | operand {e : Expr} (h : e.IsOperand) : Expr.Closes e 1
  | bin {left right : Expr} (op : ArithOp) (hleft : left.IsOperand) (hright : right.IsOperand) :
    Expr.Closes (.bin op left right) 1
  | group {left e : Expr} {k : ℕ} (op : ArithOp) (hleft : left.IsOperand) (he : Expr.Closes e k) :
    Expr.Closes (.bin op left (.paren e)) k
  | double {left e : Expr} (op : ArithOp) (hleft : left.IsOperand) (he : Expr.Closes e 1) :
    Expr.Closes (.bin op left (.paren (.paren e))) 2

/-- The expression is grouped as it is read. -/
def Expr.Grouped (e : Expr) : Prop := ∃ k, e.Closes k

/-- There is no `AND`. -/
def Clause.NoAnd : Clause → Prop
  | .comparison _ _ _ => True
  | .paren _ => False
  | .and _ _ => False
  | .or left right => left.NoAnd ∧ right.NoAnd

/-- The condition is grouped as it is read: there are no parentheses around a condition and no `AND`
in front of an `OR`. -/
def Clause.Grouped : Clause → Prop
  | .comparison _ left right => left.Grouped ∧ right.Grouped
  | .paren _ => False
  | .and left right => left.Grouped ∧ right.Grouped
  | .or left right => left.Grouped ∧ right.Grouped ∧ left.NoAnd

/-! ## Chains of comparisons -/

/-- A comparison. -/
structure Comparison where
  op : RelOp
  left : Expr
  right : Expr

namespace Comparison

variable (c : Comparison)

/-- The comparison as a condition. -/
def clause : Clause := .comparison c.op c.left c.right

/-- A relation of expressions that are grouped as they are read. -/
structure Ok : Prop where
  op : c.op ≠ .and ∧ c.op ≠ .or
  left : c.left.Grouped
  right : c.right.Grouped

end Comparison

/-- What a connective says. -/
def RelOp.join : RelOp → Bool → Bool → Bool
  | .and, a, b => a && b
  | _, a, b => a || b

theorem join_assoc (o : RelOp) (a b c : Bool) : o.join (o.join a b) c = o.join a (o.join b c) := by
  cases o <;> simp [RelOp.join, Bool.and_assoc, Bool.or_assoc]

/-- Comparisons with connectives between them. -/
abbrev Tail := List (RelOp × Comparison)

/-- The value of comparisons of which each connective takes all that is behind it. -/
def chainValue (ρ : Name → Long) (c : Comparison) : Tail → Option Bool
  | [] => c.clause.value ρ
  | (o, c') :: tail => (c.clause.value ρ).bind fun a => (chainValue ρ c' tail).map (o.join a)

/-- The tokens, the size and the attributes of the comparisons behind the first. -/
def tailTokens (tail : Tail) : List Token := tail.flatMap fun t => t.1.token :: t.2.clause.tokens

def tailSize (tail : Tail) : ℕ := (tail.map fun t => 8 + t.2.clause.size).sum

def tailAttrs (tail : Tail) : List Name := tail.flatMap fun t => t.2.clause.attrs

/-- Connectives that are the same are grouped in any way. -/
theorem chainValue_append (ρ : Name → Long) {o : RelOp} (c' : Comparison) (tail' : Tail) :
    ∀ (tail : Tail) (c : Comparison), (∀ t ∈ tail, t.1 = o) →
      chainValue ρ c (tail ++ (o, c') :: tail') =
        (chainValue ρ c tail).bind fun a => (chainValue ρ c' tail').map (o.join a) := by
  intro tail
  induction tail with
  | nil =>
    intro c _
    rfl
  | cons t tail ih =>
    intro c hall
    have ht : t.1 = o := hall t mem_cons_self
    have hrest := ih t.2 fun t' ht' => hall t' (mem_cons_of_mem _ ht')
    rw [cons_append, chainValue, chainValue, hrest, ht]
    cases c.clause.value ρ with
    | none => rfl
    | some a =>
      cases chainValue ρ t.2 tail with
      | none => rfl
      | some b =>
        cases chainValue ρ c' tail' with
        | none => rfl
        | some d =>
          simp only [bind_some, map_some, join_assoc]

/-- A condition that is a chain of comparisons. -/
structure IsChain (c : Clause) (head : Comparison) (tail : Tail) : Prop where
  tokens : c.tokens = head.clause.tokens ++ tailTokens tail
  value : ∀ ρ, chainValue ρ head tail = c.value ρ
  size : c.size = head.clause.size + tailSize tail
  attrs : c.attrs = head.clause.attrs ++ tailAttrs tail
  head : head.Ok
  tail : ∀ t ∈ tail, t.2.Ok ∧ (t.1 = .and ∨ t.1 = .or)

/-- Two chains with a connective between them. -/
theorem IsChain.append {c c' d : Clause} {o : RelOp} {head head' : Comparison} {tail tail' : Tail}
    (h : IsChain c head tail) (h' : IsChain c' head' tail') (ho : o = .and ∨ o = .or)
    (hall : ∀ t ∈ tail, t.1 = o)
    (htokens : d.tokens = c.tokens ++ o.token :: c'.tokens) (hsize : d.size = 8 + c.size + c'.size)
    (hattrs : d.attrs = c.attrs ++ c'.attrs)
    (hvalue : ∀ ρ, d.value ρ = (c.value ρ).bind fun a => (c'.value ρ).map (o.join a)) :
    IsChain d head (tail ++ (o, head') :: tail') where
  tokens := by
    rw [htokens, h.tokens, h'.tokens]
    simp [tailTokens]
  value := by
    intro ρ
    rw [chainValue_append ρ head' tail' tail head hall, h.value, h'.value, hvalue]
  size := by
    rw [hsize, h.size, h'.size]
    simp only [tailSize, map_append, map_cons, sum_append, sum_cons]
    omega
  attrs := by
    rw [hattrs, h.attrs, h'.attrs]
    simp [tailAttrs]
  head := h.head
  tail := by
    intro t ht
    rw [mem_append, mem_cons] at ht
    rcases ht with ht | rfl | ht
    · exact h.tail t ht
    · exact ⟨h'.head, ho⟩
    · exact h'.tail t ht

/-- **A condition that is grouped as it is read** is a chain, in which no `AND` stands in front of an
`OR`. -/
theorem isChain_of_grouped (c : Clause) (husual : c.Usual) (hgrouped : c.Grouped) :
    ∃ head tail, IsChain c head tail ∧ (1 ≤ c.level → ∀ t ∈ tail, t.1 = .and) ∧
      (c.NoAnd → ∀ t ∈ tail, t.1 = .or) := by
  induction c with
  | comparison op left right =>
    refine ⟨⟨op, left, right⟩, [], ⟨(append_nil _).symm, fun _ => rfl, rfl,
      (append_nil _).symm, ⟨⟨husual.1, husual.2.1⟩, hgrouped.1, hgrouped.2⟩,
      forall_mem_nil _⟩, fun _ => forall_mem_nil _, fun _ => forall_mem_nil _⟩
  | paren c => exact hgrouped.elim
  | and left right ihl ihr =>
    have ⟨head, tail, hchain, hand, _⟩ := ihl husual.2.2.1 hgrouped.1
    have ⟨head', tail', hchain', hand', _⟩ := ihr husual.2.2.2 hgrouped.2
    have hall := hand husual.1
    refine ⟨head, tail ++ (.and, head') :: tail', hchain.append hchain' (.inl rfl) hall rfl rfl rfl
      fun _ => rfl, fun _ t ht => ?_, fun hno => hno.elim⟩
    rw [mem_append, mem_cons] at ht
    rcases ht with ht | rfl | ht
    · exact hall t ht
    · rfl
    · exact hand' (Nat.le_of_lt husual.2.1) t ht
  | or left right ihl ihr =>
    have ⟨head, tail, hchain, _, hor⟩ := ihl husual.2.1 hgrouped.1
    have ⟨head', tail', hchain', _, hor'⟩ := ihr husual.2.2 hgrouped.2.1
    have hall := hor hgrouped.2.2
    refine ⟨head, tail ++ (.or, head') :: tail', hchain.append hchain' (.inr rfl) hall rfl rfl rfl
      fun _ => rfl, fun hlevel => absurd hlevel (Nat.not_succ_le_zero 0), fun hno t ht => ?_⟩
    rw [mem_append, mem_cons] at ht
    rcases ht with ht | rfl | ht
    · exact hall t ht
    · rfl
    · exact hor' hno.2 t ht

/-! ## Code of expressions -/

/-- The nodes are the code of an expression, for the variables that are registered. -/
def Codes (names : List Name) : Expr → List Node → Prop
  | .const l, ns => ns = [.operand (.lvmLong l)]
  | .attr name, ns =>
    ∃ id : Byte, ns = [.operand (.lvmVariable id)] ∧ names[id.toNat]? = some name
  | .paren e, ns => Codes names e ns
  | .bin op left right, ns =>
    ∃ ms ms', Codes names left ms ∧ Codes names right ms' ∧ ns = .arith op :: (ms ++ ms')

theorem Codes.mono {names names' : List Name} (h : names <+: names') {e : Expr} {ns : List Node}
    (hcodes : Codes names e ns) : Codes names' e ns := by
  induction e generalizing ns with
  | const l => exact hcodes
  | attr name =>
    have ⟨id, hns, hid⟩ := hcodes
    have ⟨rest, hrest⟩ := h
    refine ⟨id, hns, ?_⟩
    rw [← hrest, List.getElem?_append_left ((List.getElem?_eq_some_iff.mp hid).1), hid]
  | paren e ih => exact ih hcodes
  | bin op left right ihl ihr =>
    have ⟨ms, ms', hl, hr, hns⟩ := hcodes
    exact ⟨ms, ms', ihl hl, ihr hr, hns⟩

/-- The code has the size of the expression. -/
theorem Codes.size {names : List Name} {e : Expr} {ns : List Node} (h : Codes names e ns) :
    (encode ns).length = e.size := by
  induction e generalizing ns with
  | const l =>
    rw [show ns = _ from h, encode_cons, encode_nil, append_nil, length_node, Expr.size]
  | attr name =>
    have ⟨id, hns, _⟩ := h
    rw [hns, encode_cons, encode_nil, append_nil, length_node, Expr.size]
  | paren e ih => exact ih h
  | bin op left right ihl ihr =>
    have ⟨ms, ms', hl, hr, hns⟩ := h
    rw [hns, encode_cons, encode_append, length_append, length_append, length_arith,
      ihl hl, ihr hr, Expr.size, Nat.add_assoc]

/-! ## Values of code -/

section Value

variable {code : ℕ → Byte} {names : List Name} {ρ : Name → Long}

/-- The values of the variables. -/
def valuesOf (names : List Name) (ρ : Name → Long) : ℕ → Long := fun id => ρ (names.getD id [])

/-- What an execution gives for a value, or for a division by zero. -/
def resultOf {α : Type} : Option α → Except LvmStatus α
  | some a => .ok a
  | none => .error .mathError

theorem arith_word (op : ArithOp) (a b : Long) :
    arith op.word a b = resultOf (Expr.operate op a b) := by
  cases op with
  | div =>
    have hdiv : arith ArithOp.div.word a b =
        if b = 0 then .error .mathError else .ok (a.sdiv b) := rfl
    rw [hdiv, Expr.operate]
    split <;> rfl
  | _ => rfl

/-- An execution of a part of the code: its value, and its end if there is one. -/
structure Gives {α : Type} (run : Option (Run α)) (value : Option α) (stop : ℕ) : Prop where
  run : ∃ r, run = some (resultOf value, r) ∧ (value.isSome → r.ip = stop)

/-- Two parts, one after the other. -/
theorem Gives.two {α β : Type} {arg : Reader → Option (Run α)} {a b : Option α}
    {f : α → α → Option β} {g : α → α → Except LvmStatus β} {r : Reader} {mid stop : ℕ}
    (ha : Gives (arg r) a mid) (hb : ∀ r', r'.ip = mid → Gives (arg r') b stop)
    (hfg : ∀ x y, g x y = resultOf (f x y)) :
    Gives (bindRun (arg r) fun x r => bindRun (arg r) fun y r => some (g x y, r))
      (a.bind fun x => b.bind fun y => f x y) stop := by
  have ⟨r₁, hrun₁, hip₁⟩ := ha.run
  rw [hrun₁]
  cases a with
  | none => exact ⟨r₁, rfl, fun h => nomatch h⟩
  | some x =>
    have ⟨r₂, hrun₂, hip₂⟩ := (hb r₁ (hip₁ rfl)).run
    rw [resultOf, bindRun_ok, hrun₂]
    cases b with
    | none => exact ⟨r₂, rfl, fun h => nomatch h⟩
    | some y =>
      refine ⟨r₂, ?_, fun _ => hip₂ rfl⟩
      rw [resultOf, bindRun_ok, hfg]
      rfl

/-- The two parts of a node, whose code is behind its eight bytes. -/
theorem Gives.parts {α β : Type} {arg : Reader → Option (Run α)} {a b : Option α}
    {f : α → α → Option β} {g : α → α → Except LvmStatus β} {r : Reader} {ms ms' rest : List Node}
    (hcode : Holds code (r.ip + 8) (encode (ms ++ ms' ++ rest)))
    (hleft : Holds code (r.ip + 8) (encode (ms ++ (ms' ++ rest))) →
      Gives (arg ⟨r.ip + 8, r.ids⟩) a (r.ip + 8 + (encode ms).length))
    (hright : ∀ r', Holds code r'.ip (encode (ms' ++ rest)) →
      Gives (arg r') b (r'.ip + (encode ms').length))
    (hfg : ∀ x y, g x y = resultOf (f x y)) :
    Gives (bindRun (arg ⟨r.ip + 8, r.ids⟩) fun x r => bindRun (arg r) fun y r => some (g x y, r))
      (a.bind fun x => b.bind fun y => f x y) (r.ip + (8 + (encode (ms ++ ms')).length)) := by
  rw [append_assoc] at hcode
  have hstop : r.ip + (8 + (encode (ms ++ ms')).length) =
      r.ip + 8 + (encode ms).length + (encode ms').length := by
    rw [encode_append, length_append]
    omega
  rw [hstop]
  refine (hleft hcode).two (fun r' hip => ?_) hfg
  rw [encode_append] at hcode
  have hrest := (holds_append.mp hcode).2
  rw [← hip] at hrest ⊢
  exact hright r' hrest

/-- **The code of an expression has its value.** -/
theorem Codes.gives {e : Expr} {ns : List Node} (h : Codes names e ns) (rest : List Node) :
    ∀ fuel r, ns.length ≤ fuel → Holds code r.ip (encode (ns ++ rest)) →
      Gives (evalArg code (valuesOf names ρ) (evalExpr code (valuesOf names ρ) fuel) r)
        (e.value ρ) (r.ip + (encode ns).length) := by
  induction e generalizing ns rest with
  | const l =>
    intro fuel r _ hcode
    rw [show ns = _ from h] at hcode ⊢
    have hread := holds_operand hcode
    obtain ⟨ids, hget, _⟩ := getOperand_eq (n := 0) (valuesOf names ρ) hcode
    refine ⟨⟨⟨r.ip + 12, ids⟩, ?_, fun _ => rfl⟩⟩
    rw [evalArg, getWord, hread.1, if_neg (show ¬ lvmOperand = lvmArithOp by decide), if_pos rfl]
    simp only [hget]
    rfl
  | attr name =>
    intro fuel r _ hcode
    obtain ⟨id, hns, hid⟩ := h
    rw [hns] at hcode ⊢
    have hread := holds_operand hcode
    obtain ⟨ids, hget, _⟩ := getOperand_eq (n := 0) (valuesOf names ρ) hcode
    refine ⟨⟨⟨r.ip + 12, ids⟩, ?_, fun _ => rfl⟩⟩
    have hvalue : (Operand.lvmVariable id).value (valuesOf names ρ) = ρ name := by
      rw [Operand.value, valuesOf, getD_eq_getElem?_getD, hid]
      rfl
    rw [evalArg, getWord, hread.1, if_neg (show ¬ lvmOperand = lvmArithOp by decide), if_pos rfl]
    simp only [hget, hvalue]
    rfl
  | paren e ih => exact ih h rest
  | bin op left right ihl ihr =>
    intro fuel r hfuel hcode
    obtain ⟨ms, ms', hl, hr, hns⟩ := h
    rw [hns] at hfuel hcode ⊢
    have hread := holds_arith hcode
    cases fuel with
    | zero => exact absurd hfuel (Nat.not_succ_le_zero _)
    | succ fuel =>
      rw [length_cons, length_append] at hfuel
      have hboth := Gives.parts hread.2.2
        (ihl hl (ms' ++ rest) fuel ⟨r.ip + 8, r.ids⟩ (by omega))
        (fun r' => ihr hr rest fuel r' (by omega)) (arith_word op)
      rw [encode_cons, length_append, length_arith, evalArg, getWord, hread.1, if_pos rfl]
      simp only [getWord, hread.2.1]
      exact hboth

/-! ## Values of conditions -/

/-- The nodes are the code of a comparison. -/
def ComparisonCodes (names : List Name) (c : Comparison) (ns : List Node) : Prop :=
  ∃ ms ms', Codes names c.left ms ∧ Codes names c.right ms' ∧ ns = .rel c.op :: (ms ++ ms')

/-- The nodes are the code of comparisons of which each connective takes all that is behind it. -/
def ChainCodes (names : List Name) : Comparison → Tail → List Node → Prop
  | c, [], ns => ComparisonCodes names c ns
  | c, (o, c') :: tail, ns =>
    ∃ ms ms', ComparisonCodes names c ms ∧ ChainCodes names c' tail ms' ∧
      ns = .rel o :: (ms ++ ms')

theorem relation_word {op : RelOp} (hop : op ≠ .and ∧ op ≠ .or) (a b : Long) :
    relation op.word a b = resultOf (op.holds a b) := by
  cases op with
  | and => exact absurd rfl hop.1
  | or => exact absurd rfl hop.2
  | _ => rfl

theorem isConnective_word {op : RelOp} (hop : op ≠ .and ∧ op ≠ .or) :
    isConnective op.word = false := by
  cases op with
  | and => exact absurd rfl hop.1
  | or => exact absurd rfl hop.2
  | _ => rfl

/-- The code of a comparison has its value. -/
theorem ComparisonCodes.gives {c : Comparison} {ns : List Node} (h : ComparisonCodes names c ns)
    (hop : c.op ≠ .and ∧ c.op ≠ .or) (rest : List Node) {fuel : ℕ} {r : Reader}
    (hfuel : ns.length ≤ fuel) (hcode : Holds code r.ip (encode (ns ++ rest))) :
    Gives (evalCondition code (evalLogic code (valuesOf names ρ) fuel) r) (c.clause.value ρ)
      (r.ip + (encode ns).length) := by
  have ⟨ms, ms', hl, hr, hns⟩ := h
  rw [hns] at hfuel hcode ⊢
  have hread := holds_rel hcode
  cases fuel with
  | zero => exact absurd hfuel (Nat.not_succ_le_zero _)
  | succ fuel =>
    rw [length_cons, length_append] at hfuel
    have hboth := Gives.parts hread.2.2
      (hl.gives (ρ := ρ) (ms' ++ rest) fuel ⟨r.ip + 8, r.ids⟩ (by omega))
      (fun r' => hr.gives rest fuel r' (by omega)) (relation_word hop)
    rw [cons_append] at hcode
    rw [encode_cons, length_append, length_rel, evalCondition_rel hcode, evalLogic,
      if_neg (by rw [isConnective_word hop]; decide)]
    exact hboth

/-- **The code of a chain has its value.** -/
theorem ChainCodes.gives {tail : Tail} : ∀ {c : Comparison} {ns : List Node},
    ChainCodes names c tail ns → c.Ok → (∀ t ∈ tail, t.2.Ok ∧ (t.1 = .and ∨ t.1 = .or)) →
    ∀ (rest : List Node) {fuel : ℕ} {r : Reader}, ns.length ≤ fuel →
      Holds code r.ip (encode (ns ++ rest)) →
      Gives (evalCondition code (evalLogic code (valuesOf names ρ) fuel) r) (chainValue ρ c tail)
        (r.ip + (encode ns).length) := by
  induction tail with
  | nil =>
    intro c ns h hc _ rest fuel r hfuel hcode
    exact ComparisonCodes.gives h hc.op rest hfuel hcode
  | cons t tail ih =>
    intro c ns h hc hall rest fuel r hfuel hcode
    have ⟨ms, ms', hl, hr, hns⟩ := h
    have ht := hall t mem_cons_self
    rw [hns] at hfuel hcode ⊢
    have hread := holds_rel hcode
    cases fuel with
    | zero => exact absurd hfuel (Nat.not_succ_le_zero _)
    | succ fuel =>
      rw [length_cons, length_append] at hfuel
      have hjoin : ∀ a b : Bool, Except.ok (if t.1.word = RelOp.and.word then a && b else a || b) =
          resultOf (some (t.1.join a b)) := by
        intro a b
        rcases ht.2 with hop | hop <;> rw [hop] <;> rfl
      have hboth := Gives.parts hread.2.2
        (hl.gives (ρ := ρ) (r := ⟨r.ip + 8, r.ids⟩) hc.op (ms' ++ rest) (show ms.length ≤ fuel by omega))
        (fun r' => ih hr ht.1 (fun t' ht' => hall t' (mem_cons_of_mem _ ht')) rest (by omega))
        hjoin
      have hvalue : chainValue ρ c (t :: tail) = (c.clause.value ρ).bind fun a =>
          (chainValue ρ t.2 tail).bind fun b => some (t.1.join a b) := by
        rw [chainValue]
        congr 1
        funext a
        cases chainValue ρ t.2 tail <;> rfl
      have hconnective : isConnective t.1.word = true := by
        rcases ht.2 with hop | hop <;> rw [hop] <;> rfl
      have hnot : t.1.word ≠ lvmNot := by
        rcases ht.2 with hop | hop <;> rw [hop] <;> decide
      rw [cons_append] at hcode
      rw [encode_cons, length_append, length_rel, evalCondition_rel hcode, evalLogic,
        if_pos hconnective, hvalue]
      simp only [if_neg hnot]
      exact hboth

/-- The engine executes the code of a chain. -/
theorem ChainCodes.execute {tail : Tail} {c : Comparison} {ns : List Node} {fuel : ℕ}
    (h : ChainCodes names c tail ns) (hc : c.Ok)
    (hall : ∀ t ∈ tail, t.2.Ok ∧ (t.1 = .and ∨ t.1 = .or)) (hfuel : ns.length ≤ fuel)
    (hcode : Holds code 0 (encode ns)) :
    ∃ r, lvmExecute code (valuesOf names ρ) fuel = some (resultOf (chainValue ρ c tail), r) := by
  rw [← append_nil ns] at hcode
  have ⟨r, hrun, _⟩ := (h.gives (ρ := ρ) (r := ⟨0, []⟩) hc hall [] hfuel hcode).run
  have hrel : ∃ op ms, ns = .rel op :: ms := by
    cases tail with
    | nil =>
      have ⟨ms, ms', _, _, hns⟩ := h
      exact ⟨c.op, ms ++ ms', hns⟩
    | cons t tail =>
      have ⟨ms, ms', _, _, hns⟩ := h
      exact ⟨t.1, ms ++ ms', hns⟩
  have ⟨op, ms, hns⟩ := hrel
  rw [hns, append_nil] at hcode
  have hread := holds_rel hcode
  rw [evalCondition_rel hcode] at hrun
  refine ⟨r, ?_⟩
  rw [lvmExecute, getWord, hread.1]
  simp only [ne_eq, not_true, if_false, getWord, hread.2.1]
  exact hrun

end Value

/-! ## Tokens ahead -/

section Lexer

variable {pos : ℕ}

/-- A character at which a span ends is not of its kind. -/
theorem scan_stop {kind : Byte → Bool} (hkind : kind 0 = false) : ∀ fuel pos, pos ≤ q.length →
    q.length < pos + fuel → kind (q.mem (scan q kind fuel pos)) = false := by
  intro fuel
  induction fuel with
  | zero => exact fun pos hpos hfuel => absurd hfuel (by omega)
  | succ fuel ih =>
    intro pos hpos hfuel
    rw [scan]
    split
    · rename_i hchar
      have hne : pos ≠ q.length := by
        rintro rfl
        rw [q.terminator, hkind] at hchar
        cases hchar
      exact ih (pos + 1) (by omega) (by omega)
    · rename_i hchar
      exact Bool.eq_false_iff.mpr hchar

/-- Behind a span there is nothing of its kind. -/
theorem spanEnd_spanEnd {kind : Byte → Bool} (hkind : kind 0 = false) (hpos : pos ≤ q.length) :
    spanEnd q kind (spanEnd q kind pos) = spanEnd q kind pos := by
  have hstop := scan_stop (q := q) hkind (q.length + 1 - pos) pos hpos (by omega)
  have hle := spanEnd_le hkind hpos
  have hfuel : q.length + 1 - spanEnd q kind pos = q.length - spanEnd q kind pos + 1 := by omega
  rw [spanEnd, hfuel, scan]
  exact if_neg (Bool.eq_false_iff.mp hstop)

/-- What the lexer takes is a matter of where it is, behind blanks. -/
theorem lexerNext_congr (lexer lexer' : Lexer)
    (h : spanEnd q (fun b => b ∈ blanks) lexer.input = spanEnd q (fun b => b ∈ blanks) lexer'.input) :
    (lexerNext q lexer).2.token = (lexerNext q lexer').2.token ∧
      ((lexerNext q lexer).2.token ≠ .none →
        (lexerNext q lexer).2.input = (lexerNext q lexer').2.input) := by
  rw [lexerNext, lexerNext, h]
  generalize spanEnd q (fun b => b ∈ blanks) lexer'.input = pos
  split
  · rw [nextString, nextString]
    split
    · exact ⟨rfl, fun hnone => absurd rfl hnone⟩
    · exact ⟨rfl, fun _ => rfl⟩
  · split
    · exact ⟨rfl, fun hnone => absurd rfl hnone⟩
    · split
      · exact ⟨rfl, fun _ => rfl⟩
      · split
        · exact ⟨rfl, fun _ => rfl⟩
        · rw [nextToken, nextToken]
          split
          · exact ⟨rfl, fun _ => rfl⟩
          · exact ⟨rfl, fun _ => rfl⟩

theorem prevPos_lexerNext (lexer : Lexer) :
    (lexerNext q lexer).2.prevPos = spanEnd q (fun b => b ∈ blanks) lexer.input := by
  rw [lexerNext]
  split
  · rw [nextString]
    split <;> rfl
  · split
    · rfl
    · split
      · rfl
      · split
        · rfl
        · rw [nextToken]
          split <;> rfl

theorem ahead_cons {t : Token} {ts : List Token} (h : ahead q pos (t :: ts) = true) :
    (lexAt q pos).1 = t ∧ t ≠ .none ∧ ahead q (lexAt q pos).2 ts = true := by
  rw [ahead] at h
  exact of_decide_eq_true h

/-- There are as many characters as tokens at least. -/
theorem length_le_of_ahead (ts : List Token) : ∀ pos ≤ q.length, ahead q pos ts = true →
    pos + ts.length ≤ q.length := by
  induction ts with
  | nil => exact fun pos hpos _ => hpos
  | cons t ts ih =>
    intro pos hpos hahead
    have hcons := ahead_cons hahead
    have hnext : NextOk q ⟨pos, pos, .none, pos⟩ (lexerNext q ⟨pos, pos, .none, pos⟩).2 :=
      lexerNext_ok hpos
    have hlt : pos < (lexAt q pos).2 := by
      refine Nat.lt_of_le_of_lt hnext.back (hnext.progress ?_)
      change (lexAt q pos).1 ≠ .none
      rw [hcons.1]
      exact hcons.2.1
    have hrest := ih _ hnext.input hcons.2.2
    rw [length_cons]
    change (lexAt q pos).2 + ts.length ≤ q.length at hrest
    omega

end Lexer

/-- Where the parser is: the tokens that are ahead, the variables, and the code. -/
structure At (q : QueryString) (s : Aql) (ts : List Token) (names : List Name) (bs : List Byte) :
    Prop where
  input : s.lexer.input ≤ q.length
  ahead : ahead q s.lexer.input ts = true
  names : s.lvm.names = names
  emitted : Emitted s.lvm bs

namespace At

variable {t : Token} {ts : List Token} {names : List Name} {bs : List Byte}

/-- `NEXT` -/
theorem next (h : At q s (t :: ts) names bs) :
    (s.next q).token = t ∧ At q (s.next q) ts names bs := by
  have hcons := ahead_cons h.ahead
  have hcongr := lexerNext_congr (q := q) s.lexer
    ⟨s.lexer.input, s.lexer.input, .none, s.lexer.input⟩ rfl
  have htoken : (s.next q).token = t := hcongr.1.trans hcons.1
  refine ⟨htoken, (lexerNext_ok h.input).input, ?_, h.names, h.emitted⟩
  have hinput := hcongr.2 (by
    change (s.next q).token ≠ .none
    rw [htoken]
    exact hcons.2.1)
  change Antelope.ahead q (lexerNext q s.lexer).2.input ts = true
  rw [hinput]
  exact hcons.2.2

/-- `NEXT` and `REWIND` -/
theorem next_rewind (h : At q s (t :: ts) names bs) :
    At q (s.next q).rewind (t :: ts) names bs := by
  have hprev := prevPos_lexerNext (q := q) s.lexer
  have hok := lexerNext_ok h.input
  refine ⟨hok.prevPos, ?_, h.names, h.emitted⟩
  have hcons := ahead_cons h.ahead
  have hspan : spanEnd q (fun b => b ∈ blanks) (lexerNext q s.lexer).2.prevPos =
      spanEnd q (fun b => b ∈ blanks) s.lexer.input := by
    rw [hprev]
    exact spanEnd_spanEnd (by decide) h.input
  have hcongr := lexerNext_congr (q := q)
    ⟨s.lexer.input, s.lexer.input, .none, s.lexer.input⟩
    ⟨(lexerNext q s.lexer).2.prevPos, (lexerNext q s.lexer).2.prevPos, .none,
      (lexerNext q s.lexer).2.prevPos⟩ hspan.symm
  have htoken : (lexAt q s.lexer.input).1 = (lexAt q (lexerNext q s.lexer).2.prevPos).1 := hcongr.1
  have hinput : (lexAt q s.lexer.input).2 = (lexAt q (lexerNext q s.lexer).2.prevPos).2 := by
    refine hcongr.2 ?_
    change (lexAt q s.lexer.input).1 ≠ .none
    rw [hcons.1]
    exact hcons.2.1
  change Antelope.ahead q (lexerNext q s.lexer).2.prevPos (t :: ts) = true
  rw [Antelope.ahead, ← htoken, ← hinput]
  exact decide_eq_true hcons

/-- The code is changed. -/
theorem setLvm {names' : List Name} {bs' : List Byte} {p : LvmInstance}
    (h : At q s ts names bs) (hnames : p.names = names') (hemitted : Emitted p bs') :
    At q (s.setLvm p) ts names' bs' := ⟨h.input, h.ahead, hnames, hemitted⟩

/-- Something else is changed. -/
theorem congr {s' : Aql} (h : At q s ts names bs) (hlexer : s'.lexer = s.lexer)
    (hlvm : s'.lvm = s.lvm) : At q s' ts names bs := by
  refine ⟨?_, ?_, ?_, ?_⟩
  · rw [hlexer]
    exact h.input
  · rw [hlexer]
    exact h.ahead
  · rw [hlvm]
    exact h.names
  · rw [hlvm]
    exact h.emitted

end At

/-! ## Operands -/

/-- The variables once a name was registered. -/
def registerName (names : List Name) (name : Name) : List Name :=
  if name ∈ names then names else names ++ [name]

/-- The variables once the attributes of an expression were registered. -/
def registerAll (names : List Name) (attrs : List Name) : List Name := attrs.foldl registerName names

theorem prefix_registerName (names : List Name) (name : Name) : names <+: registerName names name := by
  rw [registerName]
  split
  · exact prefix_refl _
  · exact prefix_append _ _

theorem prefix_registerAll (attrs : List Name) : ∀ names, names <+: registerAll names attrs := by
  induction attrs with
  | nil => exact fun names => prefix_refl _
  | cons name attrs ih => exact fun names => (prefix_registerName names name).trans (ih _)

theorem registerAll_append (names attrs attrs' : List Name) :
    registerAll names (attrs ++ attrs') = registerAll (registerAll names attrs) attrs' :=
  foldl_append

/-- There is a place for each variable, and no name is too long. -/
structure Fits (names attrs : List Name) : Prop where
  count : (registerAll names attrs).length ≤ lvmMaxVariableId
  short : ∀ name ∈ attrs, name.length ≤ lvmMaxNameLength

theorem Fits.left {names attrs attrs' : List Name} (h : Fits names (attrs ++ attrs')) :
    Fits names attrs := by
  refine ⟨?_, fun name hname => h.short name (mem_append_left _ hname)⟩
  have hcount := h.count
  rw [registerAll_append] at hcount
  exact Nat.le_trans (prefix_registerAll attrs' _).length_le hcount

theorem Fits.right {names attrs attrs' : List Name} (h : Fits names (attrs ++ attrs')) :
    Fits (registerAll names attrs) attrs' := by
  refine ⟨?_, fun name hname => h.short name (mem_append_right _ hname)⟩
  rw [← registerAll_append]
  exact h.count

section Lvm

variable {p : LvmInstance} {bs : List Byte} {name : Name}

/-- A name is found where it is, or at the first free place. -/
theorem lookup_of_mem (hname : name ∈ p.names) (hcount : p.names.length ≤ lvmMaxVariableId) :
    p.lookup name < p.names.length ∧ p.names[p.lookup name]? = some name := by
  have hlt : p.names.findIdx (· = name) < p.names.length :=
    findIdx_lt_length_of_exists ⟨name, hname, decide_eq_true rfl⟩
  have hlookup : p.lookup name = p.names.findIdx (· = name) :=
    Nat.min_eq_left (Nat.le_trans (Nat.le_of_lt hlt) hcount)
  rw [hlookup]
  refine ⟨hlt, ?_⟩
  rw [List.getElem?_eq_getElem hlt]
  have hfound := findIdx_getElem (w := hlt)
  exact congrArg some (of_decide_eq_true hfound)

theorem lookup_of_not_mem (hname : name ∉ p.names) (hcount : p.names.length ≤ lvmMaxVariableId) :
    p.lookup name = p.names.length := by
  have hnone : p.names.findIdx (· = name) = p.names.length := by
    refine findIdx_eq_length.mpr fun name' hname' => ?_
    refine decide_eq_false ?_
    rintro rfl
    exact hname hname'
  rw [LvmInstance.lookup, hnone]
  exact Nat.min_eq_left hcount

/-- A variable is registered, if there is a place for it. -/
theorem register_eq (hcount : (registerName p.names name).length ≤ lvmMaxVariableId)
    (hshort : name.length ≤ lvmMaxNameLength) :
    (p.lvmRegisterVariable name).1 = true ∧
      (p.lvmRegisterVariable name).2.names = registerName p.names name ∧
      (p.lvmRegisterVariable name).2.codeEnd = p.codeEnd := by
  by_cases hname : name ∈ p.names
  · rw [registerName, if_pos hname] at hcount ⊢
    have hlookup := lookup_of_mem hname hcount
    rw [LvmInstance.lvmRegisterVariable, if_neg (by omega), if_pos hlookup.1]
    exact ⟨rfl, rfl, rfl⟩
  · rw [registerName, if_neg hname] at hcount ⊢
    rw [length_append, length_singleton] at hcount
    have hlookup := lookup_of_not_mem hname (by omega)
    rw [LvmInstance.lvmRegisterVariable, if_neg (by omega), if_neg (by omega),
      take_of_length_le hshort]
    exact ⟨rfl, rfl, rfl⟩

theorem mem_registerName (names : List Name) (name : Name) : name ∈ registerName names name := by
  rw [registerName]
  split
  · assumption
  · exact mem_append_right _ (mem_singleton_self _)

theorem emitted_register (h : Emitted p bs) (name : Name) :
    Emitted (p.lvmRegisterVariable name).2 bs := by
  rw [LvmInstance.lvmRegisterVariable]
  split
  · exact h
  · split
    · exact h
    · exact ⟨h.code, h.codeEnd⟩

/-- An operand is set, if there is room for it. -/
theorem setOperand_eq (h : Emitted p bs) (o : Operand) (hroom : bs.length + 12 < dbVmBytecodeSize) :
    ∃ p', p.lvmSetOperand o = (true, p') ∧ p'.names = p.names ∧
      Emitted p' (bs ++ encode [.operand o]) := by
  refine ⟨_, LvmInstance.setNode_of_lt ?_, rfl, ?_⟩
  · rw [length_operand, h.codeEnd]
    exact hroom
  · rw [encode_cons, encode_nil, append_nil]
    exact h.append _

/-- A variable is registered and set. -/
theorem setVariable_eq (h : Emitted p bs)
    (hcount : (registerName p.names name).length ≤ lvmMaxVariableId)
    (hshort : name.length ≤ lvmMaxNameLength) (hroom : bs.length + 12 < dbVmBytecodeSize) :
    ∃ p', (p.lvmRegisterVariable name).2.lvmSetVariable name = (true, p') ∧
      p'.names = registerName p.names name ∧
      ∃ ns, Codes (registerName p.names name) (.attr name) ns ∧ Emitted p' (bs ++ encode ns) := by
  have hregister := register_eq hcount hshort
  have hemitted := emitted_register h name
  generalize (p.lvmRegisterVariable name).2 = p₁ at *
  have hmem : name ∈ p₁.names := by
    rw [hregister.2.1]
    exact mem_registerName _ _
  have hlookup := lookup_of_mem hmem (by rw [hregister.2.1]; exact hcount)
  rw [hregister.2.1] at hlookup
  have hne : ¬ p₁.lookup name = lvmMaxVariableId := by omega
  have ⟨p', hset, hnames, hemitted'⟩ :=
    setOperand_eq hemitted (.lvmVariable (BitVec.ofNat 8 (p₁.lookup name))) hroom
  refine ⟨p', ?_, hnames.trans hregister.2.1, _, ⟨_, rfl, ?_⟩, hemitted'⟩
  · rw [LvmInstance.lvmSetVariable, if_neg hne]
    exact hset
  · have hsmall : p₁.lookup name < 2 ^ 8 :=
      Nat.lt_of_lt_of_le hlookup.1 (Nat.le_trans hcount (by decide))
    rw [BitVec.toNat_ofNat, Nat.mod_eq_of_lt hsmall]
    exact hlookup.2

end Lvm

/-- A parser succeeds. -/
def Accepts (parser : AqlParser) (s : Aql) (post : Aql → Prop) : Prop :=
  Runs parser s fun status s' => status = 2 ∧ post s'

/-- A parser that succeeds is followed by another. -/
theorem Accepts.parsed {parser next : AqlParser} {mid : Aql → Prop} {post : ℕ → Aql → Prop}
    (h : Accepts parser s mid) (hnext : ∀ s', mid s' → Runs next s' post) :
    Runs (parsed parser next) s post := by
  have ⟨status, s', hrun, hstatus, hmid⟩ := h
  have ⟨status', s'', hrun', hpost⟩ := hnext s' hmid
  refine ⟨status', s'', ?_, hpost⟩
  rw [Antelope.parsed, hrun, bind_some, hstatus]
  exact hrun'

/-- A token that is expected. -/
theorem At.consume {t : Token} {ts : List Token} {names : List Name} {bs : List Byte}
    {next : AqlParser} {post : ℕ → Aql → Prop} (h : At q s (t :: ts) names bs)
    (hnext : ∀ s', At q s' ts names bs → Runs next s' post) :
    Runs (consume q t next) s post := by
  have hn := h.next
  have ⟨status, s', hrun, hpost⟩ := hnext _ hn.2
  exact ⟨status, s', by rw [Antelope.consume, if_pos hn.1]; exact hrun, hpost⟩

section Operands

variable {ts : List Token} {names : List Name} {bs : List Byte}

/-- What is behind the code of an expression. -/
def Emits (q : QueryString) (e : Expr) (ts : List Token) (names : List Name) (bs : List Byte)
    (s' : Aql) : Prop :=
  ∃ ns, Codes (registerAll names e.attrs) e ns ∧
    At q s' ts (registerAll names e.attrs) (bs ++ encode ns)

theorem addAttribute_congr (s : Aql) (name : Name) (flag : Bool) :
    (s.addAttribute name .unspecified 0 flag).lexer = s.lexer ∧
      (s.addAttribute name .unspecified 0 flag).lvm = s.lvm := by
  rw [Aql.addAttribute]
  dsimp only
  split
  · exact ⟨rfl, rfl⟩
  · split
    · exact ⟨rfl, rfl⟩
    · split <;> exact ⟨rfl, rfl⟩

theorem addRelation_congr (s : Aql) (name : Name) :
    (s.addRelation name).lexer = s.lexer ∧ (s.addRelation name).lvm = s.lvm := by
  rw [Aql.addRelation]
  split <;> exact ⟨rfl, rfl⟩

/-- `parse_operand` -/
theorem parseOperand_accepts {e : Expr} (he : e.IsOperand) (h : At q s (e.tokens ++ ts) names bs)
    (hfits : Fits names e.attrs) (hroom : bs.length + e.size < dbVmBytecodeSize) :
    Accepts (parseOperand q) s (Emits q e ts names bs) := by
  cases he with
  | const l =>
    have h' : At q s (.integerValue l :: ts) names bs := h
    have hn := h'.next
    obtain ⟨p', hset, hnames, hemitted⟩ := setOperand_eq hn.2.emitted (.lvmLong l) hroom
    have hlong : (s.next q).lvm.lvmSetLong l = (true, p') := hset
    refine ⟨2, (s.next q).setLvm p', ?_, rfl, _, rfl, ?_⟩
    · rw [parseOperand]
      simp only [hn.1, hlong, Bool.not_true, Bool.false_eq_true, if_false]
      rfl
    · exact hn.2.setLvm (hnames.trans hn.2.names) hemitted
  | attr name =>
    have h' : At q s (.identifier name :: ts) names bs := h
    have hn := h'.next
    have hcount : (registerName (s.next q).lvm.names name).length ≤ lvmMaxVariableId := by
      rw [hn.2.names]
      exact hfits.count
    have hshort := hfits.short name (mem_singleton_self _)
    obtain ⟨p', hset, hnames, ns, hcodes, hemitted⟩ :=
      setVariable_eq hn.2.emitted hcount hshort hroom
    have hregister := (register_eq hcount hshort).1
    rw [hn.2.names] at hnames hcodes
    rw [Accepts, Runs, parseOperand]
    simp only [hn.1]
    generalize hs₁ : (s.next q).slip .longName (name.length > lvmMaxNameLength) = s₁
    have hlvm₁ : s₁.lvm = (s.next q).lvm := by rw [← hs₁]; rfl
    have hlexer₁ : s₁.lexer = (s.next q).lexer := by rw [← hs₁]; rfl
    rw [hlvm₁, hregister]
    simp only [Bool.not_true, Bool.false_eq_true, if_false, hset]
    have hwrite : ∃ s₂, (if (s.next q).lvm.lookup name = (s.next q).lvm.names.length then
        (s₁.write .variables (s.next q).lvm.names.length).write .variableName lvmMaxNameLength
        else s₁) = s₂ ∧ s₂.lexer = (s.next q).lexer := by
      split
      · exact ⟨_, rfl, hlexer₁⟩
      · exact ⟨_, rfl, hlexer₁⟩
    obtain ⟨s₂, hs₂, hlexer₂⟩ := hwrite
    rw [hs₂]
    have hadded := addAttribute_congr (s₂.setLvm p') name true
    refine ⟨2, _, rfl, rfl, ns, hcodes, ?_⟩
    have hat : At q (s₂.setLvm p') ts (registerName names name) (bs ++ encode ns) := by
      refine ⟨?_, ?_, hnames, hemitted⟩
      · change s₂.lexer.input ≤ q.length
        rw [hlexer₂]
        exact hn.2.input
      · change ahead q s₂.lexer.input ts = true
        rw [hlexer₂]
        exact hn.2.ahead
    exact hat.congr hadded.1 hadded.2

/-- An opening parenthesis is no operand, and it is taken. -/
theorem parseOperand_leftParen (h : At q s (.leftParen :: ts) names bs) :
    Runs (parseOperand q) s fun status s' => status = 3 ∧ At q s' ts names bs := by
  have hn := h.next
  refine ⟨3, s.next q, ?_, rfl, hn.2⟩
  rw [parseOperand]
  simp only [hn.1]
  rfl

end Operands

/-! ## Expressions -/

/-- A token that neither goes on with an expression nor closes it. -/
def Stops (t : Token) : Prop := t ≠ .rightParen ∧ arithOpOf t = none

/-- Closing parentheses and what is behind them. -/
def closing (k : ℕ) (t : Token) (ts : List Token) : List Token :=
  List.replicate k .rightParen ++ t :: ts

section Exprs

variable {t : Token} {ts : List Token} {names : List Name} {bs : List Byte}

/-- The loop of an expression takes one closing parenthesis, if there is one. -/
theorem exprLoop_closes (expr : AqlParser) (fuel savedEnd : ℕ) {k : ℕ} (ht : Stops t)
    (h : At q s (closing k t ts) names bs) :
    Accepts (exprLoop q expr (fuel + 1) savedEnd) s fun s' =>
      At q s' (closing (k - 1) t ts) names bs := by
  cases k with
  | zero =>
    have h' : At q s (t :: ts) names bs := h
    have hn := h'.next
    refine ⟨2, (s.next q).rewind, ?_, rfl, h'.next_rewind⟩
    rw [exprLoop, hn.1]
    simp only [if_neg ht.1, ht.2]
    rfl
  | succ k =>
    have h' : At q s (.rightParen :: closing k t ts) names bs := h
    have hn := h'.next
    refine ⟨2, s.next q, ?_, rfl, hn.2⟩
    rw [exprLoop, hn.1]
    rfl

/-- A node is put in front of code. -/
theorem putNode_puts {as cs : List Byte} (type : BitVec 32) (payload : List Byte)
    {next : ℕ → AqlParser} {post : ℕ → Aql → Prop} (h : At q s ts names (as ++ cs))
    (hcs : 0 < cs.length) (hpayload : payload.length = 4)
    (hroom : (as ++ cs).length + 8 < dbVmBytecodeSize)
    (hnext : ∀ s', At q s' ts names (as ++ (le32 type ++ payload ++ cs)) →
      Runs (next ((as ++ cs).length + 8)) s' post) :
    Runs (putNode as.length (fun p => p.setNode type payload) next) s post := by
  have hop : LvmInstance.opSize = 8 := rfl
  have hcodeEnd := h.emitted.codeEnd
  have ⟨p', hshift, p'', hset, hemitted, hnames⟩ :=
    h.emitted.put type hcs hpayload (by rw [hcodeEnd, hop]; exact hroom)
  rw [Runs, Antelope.putNode]
  simp only [hshift, hset, Bool.not_true, Bool.false_eq_true, if_false]
  rw [hcodeEnd, hop] at hemitted hnames ⊢
  refine hnext _ ⟨h.input, h.ahead, ?_, hemitted⟩
  exact hnames.trans h.names

/-- An operator is found, its right side is read, and it is put in front of both. -/
theorem exprLoop_operator {expr : AqlParser} {fuel k : ℕ} {op : ArithOp} {left right : Expr}
    {rest : List Token} {ns : List Node} (ht : Stops t)
    (h : At q s (op.token :: rest) (registerAll names left.attrs) (bs ++ encode ns))
    (hns : Codes (registerAll names left.attrs) left ns)
    (hroom : bs.length + (Expr.bin op left right).size < dbVmBytecodeSize)
    (hright : ∀ put s', At q s' rest (registerAll names left.attrs) (bs ++ encode ns) →
      (∀ s'', Emits q right (closing k t ts) (registerAll names left.attrs) (bs ++ encode ns) s'' →
        Accepts put s'' (Emits q (.bin op left right) (closing (k - 1) t ts) names bs)) →
      Accepts (fun s => (parseOperand q s).bind fun r =>
        if aqlError r.1 then parsed expr put r.2 else put r.2) s'
          (Emits q (.bin op left right) (closing (k - 1) t ts) names bs)) :
    Accepts (exprLoop q expr (fuel + 2) bs.length) s
      (Emits q (.bin op left right) (closing (k - 1) t ts) names bs) := by
  have hn := h.next
  have hparen : op.token ≠ .rightParen := by cases op <;> decide
  have hop : arithOpOf op.token = some op := by cases op <;> rfl
  have hrun := hright (putNode bs.length (fun p => p.lvmSetOp op) (exprLoop q expr (fuel + 1)))
    (s.next q) hn.2 ?_
  · rw [Accepts, Runs, exprLoop, hn.1]
    simp only [if_neg hparen, hop]
    exact hrun
  · intro s₁ hemits
    obtain ⟨ms, hms, hat⟩ := hemits
    rw [append_assoc] at hat
    have hsize := hns.size
    have hsize' := hms.size
    rw [Expr.size] at hroom
    have hpos : 0 < (encode ns ++ encode ms).length := by
      have hoperand : ∀ e : Expr, 0 < e.size := by
        intro e
        induction e with
        | paren e ih => exact ih
        | bin op left right ihl ihr => rw [Expr.size]; omega
        | _ => exact Nat.zero_lt_succ _
      have hleft := hoperand left
      rw [length_append]
      omega
    refine putNode_puts lvmArithOp (le32 op.word) hat hpos rfl ?_ ?_
    · simp only [length_append]
      omega
    · intro s₂ h₂
      have hclose := exprLoop_closes expr fuel ((bs ++ (encode ns ++ encode ms)).length + 8) ht h₂
      refine hclose.mono fun status s₃ h₃ => ⟨h₃.1, .arith op :: (ns ++ ms), ?_, ?_⟩
      · rw [Expr.attrs, registerAll_append]
        exact ⟨ns, ms, hns.mono (prefix_registerAll _ _), hms, rfl⟩
      · rw [Expr.attrs, registerAll_append, encode_cons, encode_append, Node.bytes]
        exact h₃.2

/-- The right side of an operator is an operand. -/
theorem rightSide_operand {expr put : AqlParser} {e : Expr} {post : Aql → Prop}
    (he : e.IsOperand) (h : At q s (e.tokens ++ ts) names bs) (hfits : Fits names e.attrs)
    (hroom : bs.length + e.size < dbVmBytecodeSize)
    (hput : ∀ s', Emits q e ts names bs s' → Accepts put s' post) :
    Accepts (fun s => (parseOperand q s).bind fun r =>
      if aqlError r.1 then parsed expr put r.2 else put r.2) s post := by
  have ⟨status, s', hrun, hstatus, hemits⟩ := parseOperand_accepts he h hfits hroom
  have ⟨status', s'', hrun', hpost⟩ := hput s' hemits
  refine ⟨status', s'', ?_, hpost⟩
  simp only [hrun, bind_some, hstatus]
  exact hrun'

/-- The right side of an operator is in parentheses. -/
theorem rightSide_group {expr put : AqlParser} {mid post : Aql → Prop}
    (h : At q s (.leftParen :: ts) names bs)
    (hexpr : ∀ s', At q s' ts names bs → Accepts expr s' mid)
    (hput : ∀ s', mid s' → Accepts put s' post) :
    Accepts (fun s => (parseOperand q s).bind fun r =>
      if aqlError r.1 then parsed expr put r.2 else put r.2) s post := by
  have ⟨status, s', hrun, hstatus, hat⟩ := parseOperand_leftParen h
  have ⟨status', s'', hrun', hpost⟩ := (hexpr s' hat).parsed hput
  refine ⟨status', s'', ?_, hpost⟩
  simp only [hrun, bind_some, hstatus]
  exact hrun'

/-- An expression that starts with an operand. -/
theorem parseExpr_operand {left : Expr} {fuel : ℕ} {rest : List Token} {post : Aql → Prop}
    (hleft : left.IsOperand) (h : At q s (left.tokens ++ rest) names bs)
    (hfits : Fits names left.attrs) (hroom : bs.length + left.size < dbVmBytecodeSize)
    (hloop : ∀ s', Emits q left rest names bs s' →
      Accepts (exprLoop q (parseExpr q fuel) fuel bs.length) s' post) :
    Accepts (parseExpr q (fuel + 1)) s post := by
  have htoken : ∃ token ts', left.tokens ++ rest = token :: ts' ∧ token ≠ .leftParen := by
    cases hleft with
    | const l => exact ⟨_, rest, rfl, Token.noConfusion⟩
    | attr name => exact ⟨_, rest, rfl, Token.noConfusion⟩
  have ⟨token, ts', htokens, hne⟩ := htoken
  have h' := h
  rw [htokens] at h'
  have hn := h'.next
  have hback := h'.next_rewind
  rw [← htokens] at hback
  rw [Accepts, Runs, parseExpr, hn.1]
  simp only [if_neg hne]
  have hcodeEnd := h.emitted.codeEnd
  rw [hcodeEnd]
  exact (parseOperand_accepts hleft hback hfits hroom).parsed hloop

/-- **An expression is accepted**, and its code is emitted; it takes closing parentheses behind it,
as many as it can. -/
theorem parseExpr_accepts {e : Expr} {c : ℕ} (he : e.Closes c) : ∀ (fuel k : ℕ) (s : Aql)
    (names : List Name) (bs : List Byte), Stops t → At q s (e.tokens ++ closing k t ts) names bs →
    Fits names e.attrs → bs.length + e.size < dbVmBytecodeSize → e.tokens.length + 1 ≤ fuel →
    Accepts (parseExpr q fuel) s (Emits q e (closing (k - c) t ts) names bs) := by
  induction he with
  | operand h =>
    intro fuel k s names bs ht hat hfits hroom hfuel
    have hlength : 2 ≤ fuel := by
      cases h <;> exact hfuel
    obtain ⟨n, hn⟩ := Nat.exists_eq_add_of_le' hlength
    rw [hn]
    refine parseExpr_operand h hat hfits hroom fun s₁ hemits => ?_
    obtain ⟨ns, hns, hat₁⟩ := hemits
    exact (exprLoop_closes _ _ _ ht hat₁).mono fun status s₂ h₂ => ⟨h₂.1, ns, hns, h₂.2⟩
  | @bin left right op hleft hright =>
    intro fuel k s names bs ht hat hfits hroom hfuel
    rw [Expr.tokens, length_append, length_cons] at hfuel
    have hlength : 3 ≤ fuel := by
      have hone : 1 ≤ left.tokens.length := by cases hleft <;> exact Nat.le_refl _
      have hone' : 1 ≤ right.tokens.length := by cases hright <;> exact Nat.le_refl _
      omega
    obtain ⟨n, hn⟩ := Nat.exists_eq_add_of_le' hlength
    rw [hn]
    rw [Expr.tokens, append_assoc, cons_append] at hat
    have hsize := hroom
    rw [Expr.size] at hsize
    refine parseExpr_operand hleft hat hfits.left (by omega) fun s₁ hemits => ?_
    obtain ⟨ns, hns, hat₁⟩ := hemits
    refine exprLoop_operator ht hat₁ hns hroom fun put s₂ h₂ hput => ?_
    refine rightSide_operand hright h₂ hfits.right ?_ hput
    rw [length_append, hns.size]
    omega
  | @group left e c op hleft he ih =>
    intro fuel k s names bs ht hat hfits hroom hfuel
    rw [Expr.tokens, Expr.tokens, length_append, length_cons, length_cons,
      length_append, length_singleton] at hfuel
    obtain ⟨n, hn⟩ := Nat.exists_eq_add_of_le' (show 3 ≤ fuel by omega)
    rw [hn] at hfuel ⊢
    have hgroup : (Expr.bin op left (.paren e)).tokens ++ closing k t ts =
        left.tokens ++ op.token :: .leftParen :: (e.tokens ++ closing (k + 1) t ts) := by
      simp [Expr.tokens, closing, replicate_succ]
    rw [hgroup] at hat
    have hsize := hroom
    rw [Expr.size, Expr.size] at hsize
    refine parseExpr_operand hleft hat hfits.left (by omega) fun s₁ hemits => ?_
    obtain ⟨ns, hns, hat₁⟩ := hemits
    have hk : k - c = k + 1 - c - 1 := by omega
    rw [hk]
    refine exprLoop_operator ht hat₁ hns hroom fun put s₂ h₂ hput => ?_
    refine rightSide_group h₂ (fun s₃ h₃ => ?_) hput
    refine ih _ (k + 1) s₃ _ _ ht h₃ hfits.right ?_ (by omega)
    rw [length_append, hns.size]
    omega
  | @double left e op hleft he ih =>
    intro fuel k s names bs ht hat hfits hroom hfuel
    rw [Expr.tokens, Expr.tokens, Expr.tokens] at hfuel
    simp only [length_append, length_cons, length_nil] at hfuel
    obtain ⟨n, hn⟩ := Nat.exists_eq_add_of_le' (show 3 ≤ fuel by omega)
    rw [hn] at hfuel ⊢
    have hgroup : (Expr.bin op left (.paren (.paren e))).tokens ++ closing k t ts =
        left.tokens ++ op.token :: .leftParen :: .leftParen ::
          (e.tokens ++ closing (k + 2) t ts) := by
      simp [Expr.tokens, closing, replicate_succ]
    rw [hgroup] at hat
    have hsize := hroom
    rw [Expr.size, Expr.size, Expr.size] at hsize
    refine parseExpr_operand hleft hat hfits.left (by omega) fun s₁ hemits => ?_
    obtain ⟨ns, hns, hat₁⟩ := hemits
    have hk : k - 2 = k - 1 - 1 := by omega
    rw [hk]
    refine exprLoop_operator ht hat₁ hns hroom fun put s₂ h₂ hput => ?_
    refine rightSide_group h₂ (fun s₃ h₃ => ?_) hput
    -- the second pair is the start of an expression
    have hnext := h₃.next
    rw [Accepts, Runs, parseExpr, hnext.1]
    have hroom' : (bs ++ encode ns).length + e.size < dbVmBytecodeSize := by
      rw [length_append, hns.size]
      omega
    refine Accepts.parsed (ih (n + 1) (k + 2) _ _ _ ht hnext.2 hfits.right hroom' (by omega))
      fun s₄ h₄ => ?_
    obtain ⟨ms, hms, hat₄⟩ := h₄
    have hclosing : closing (k + 2 - 1) t ts = .rightParen :: closing k t ts := by
      simp [closing, replicate_succ]
    rw [hclosing] at hat₄
    refine At.consume hat₄ fun s₅ h₅ => ?_
    exact (exprLoop_closes _ _ _ ht h₅).mono fun status s₆ h₆ => ⟨h₆.1, ms, hms, h₆.2⟩

end Exprs

/-! ## Conditions -/

section Conditions

variable {t : Token} {ts : List Token} {names : List Name} {bs : List Byte}

/-- What is behind the code of a comparison. -/
def EmitsComparison (q : QueryString) (c : Comparison) (ts : List Token) (names : List Name)
    (bs : List Byte) (s' : Aql) : Prop :=
  ∃ ns, ComparisonCodes (registerAll names c.clause.attrs) c ns ∧
    At q s' ts (registerAll names c.clause.attrs) (bs ++ encode ns)

/-- A relation is set over the room in front of its left side. -/
theorem setRelation_eq {p : LvmInstance} {hole : List Byte} {e : List Node} (rel : RelOp)
    (h : Emitted p (bs ++ hole ++ encode e)) (hhole : hole.length = 8)
    (hroom : (bs ++ hole ++ encode e).length < dbVmBytecodeSize) :
    ∃ p', (p.lvmSetEnd bs.length).2.lvmSetRelation rel = (true, p') ∧
      Emitted (p'.lvmSetEnd (p.lvmSetEnd bs.length).1).2 (bs ++ encode (.rel rel :: e)) ∧
      (p'.lvmSetEnd (p.lvmSetEnd bs.length).1).2.names = p.names := by
  have hlt : p.codeEnd < dbVmBytecodeSize := by
    rw [h.codeEnd]
    exact hroom
  rw [append_assoc] at h
  have hback := (h.setEnd hlt).1
  rw [hback]
  have hset : bs.length + (4 + (le32 rel.word).length) < dbVmBytecodeSize := by
    simp only [length_append] at hroom
    rw [length_le32]
    omega
  refine ⟨_, LvmInstance.setNode_of_lt hset, ?_, ?_⟩
  · rw [encode_cons, Node.bytes]
    exact h.fill hhole hlt
  · rw [LvmInstance.lvmSetEnd, if_neg (Nat.not_le.mpr hlt)]
    rfl

/-- The token of a relation neither goes on with an expression nor closes it. -/
theorem stops_rel {op : RelOp} (hop : op ≠ .and ∧ op ≠ .or) :
    Stops op.token ∧ relOpOf op.token = some op := by
  cases op with
  | and => exact absurd rfl hop.1
  | or => exact absurd rfl hop.2
  | _ => exact ⟨⟨Token.noConfusion, rfl⟩, rfl⟩

/-- **A comparison is accepted**, and its code is emitted. -/
theorem parseComparison_accepts {c : Comparison} (fuel : ℕ) (hc : c.Ok) (ht : Stops t)
    (h : At q s (c.clause.tokens ++ t :: ts) names bs) (hfits : Fits names c.clause.attrs)
    (hroom : bs.length + c.clause.size < dbVmBytecodeSize)
    (hfuel : c.clause.tokens.length + 1 ≤ fuel) :
    Accepts (parseComparison q fuel) s (EmitsComparison q c (t :: ts) names bs) := by
  have hop : LvmInstance.opSize = 8 := rfl
  have hrel := stops_rel hc.op
  obtain ⟨k, hleft⟩ := hc.left
  obtain ⟨k', hright⟩ := hc.right
  rw [Comparison.clause, Clause.tokens] at hfuel
  rw [Comparison.clause, Clause.size] at hroom
  have hattrs : c.clause.attrs = c.left.attrs ++ c.right.attrs := rfl
  have htokens : c.clause.tokens ++ t :: ts =
      c.left.tokens ++ c.op.token :: (c.right.tokens ++ t :: ts) := by
    simp [Comparison.clause, Clause.tokens]
  rw [hattrs] at hfits
  rw [htokens] at h
  rw [length_append, length_cons] at hfuel
  have hjumpRoom : s.lvm.codeEnd + LvmInstance.opSize < dbVmBytecodeSize := by
    rw [h.emitted.codeEnd]
    omega
  obtain ⟨hjump, hnames, hole, hhole, hemitted⟩ := h.emitted.jump hjumpRoom
  -- the left side, behind the room for the relation
  have hat : At q ((s.slip .noRoom (s.lvm.codeEnd + LvmInstance.opSize ≥
      dbVmBytecodeSize)).setLvm s.lvm.lvmJumpToOperand.2)
      (c.left.tokens ++ closing 0 c.op.token (c.right.tokens ++ t :: ts)) names (bs ++ hole) :=
    ⟨h.input, h.ahead, hnames.trans h.names, hemitted⟩
  have hroom₁ : (bs ++ hole).length + c.left.size < dbVmBytecodeSize := by
    rw [length_append]
    omega
  rw [Accepts, Runs, parseComparison]
  refine (parseExpr_accepts hleft fuel 0 _ _ _ hrel.1 hat hfits.left hroom₁ (by omega)).parsed
    fun s₁ h₁ => ?_
  obtain ⟨ns, hns, hat₁⟩ := h₁
  rw [Nat.zero_sub] at hat₁
  have hsize := hns.size
  have hroom₂ : (bs ++ hole ++ encode ns).length < dbVmBytecodeSize := by
    simp only [length_append]
    omega
  obtain ⟨p', hset, hemitted', hnames'⟩ := setRelation_eq c.op hat₁.emitted hhole hroom₂
  rw [← hjump] at hset hemitted' hnames'
  -- the relation
  have hback : At q (s₁.setLvm (s₁.lvm.lvmSetEnd s.lvm.lvmJumpToOperand.1).2)
      (c.op.token :: (c.right.tokens ++ t :: ts)) (registerAll names c.left.attrs) bs := by
    have hlt : s₁.lvm.codeEnd < dbVmBytecodeSize := by
      rw [hat₁.emitted.codeEnd]
      exact hroom₂
    have hassoc := hat₁.emitted
    rw [append_assoc] at hassoc
    have hend := hassoc.setEnd hlt
    rw [hjump]
    refine ⟨hat₁.input, hat₁.ahead, ?_, hend.2⟩
    change (s₁.lvm.lvmSetEnd bs.length).2.names = _
    rw [hend.1]
    exact hat₁.names
  have hnext := hback.next
  have hlvm : ((s₁.setLvm (s₁.lvm.lvmSetEnd s.lvm.lvmJumpToOperand.1).2).next q).lvm =
    (s₁.lvm.lvmSetEnd s.lvm.lvmJumpToOperand.1).2 := rfl
  simp only [Runs, hnext.1, hrel.2, hlvm, hset, Bool.not_true, Bool.false_eq_true, if_false]
  -- the right side
  have hat₂ : At q (((s₁.setLvm (s₁.lvm.lvmSetEnd s.lvm.lvmJumpToOperand.1).2).next q).setLvm
      (p'.lvmSetEnd (s₁.lvm.lvmSetEnd s.lvm.lvmJumpToOperand.1).1).2)
      (c.right.tokens ++ closing 0 t ts) (registerAll names c.left.attrs)
      (bs ++ encode (.rel c.op :: ns)) :=
    hnext.2.setLvm (hnames'.trans hat₁.names) hemitted'
  have hroom₃ : (bs ++ encode (.rel c.op :: ns)).length + c.right.size < dbVmBytecodeSize := by
    rw [length_append, encode_cons, length_append, length_rel]
    omega
  refine (parseExpr_accepts hright fuel 0 _ _ _ ht hat₂ hfits.right hroom₃ (by omega)).parsed
    fun s₂ h₂ => ?_
  obtain ⟨ms, hms, hat₃⟩ := h₂
  rw [Nat.zero_sub] at hat₃
  refine ⟨2, _, rfl, rfl, .rel c.op :: (ns ++ ms), ?_, ?_⟩
  · rw [hattrs, registerAll_append]
    exact ⟨ns, ms, hns.mono (prefix_registerAll _ _), hms, rfl⟩
  · rw [hattrs, registerAll_append]
    rw [append_assoc, ← encode_append, cons_append] at hat₃
    exact hat₃.congr rfl rfl

/-- What is behind the code of a chain of which the first comparison was read. -/
def EmitsChain (q : QueryString) (c : Comparison) (tail : Tail) (ts : List Token)
    (names : List Name) (bs : List Byte) (s' : Aql) : Prop :=
  ∃ ns, ChainCodes (registerAll names (tailAttrs tail)) c tail ns ∧
    At q s' ts (registerAll names (tailAttrs tail)) (bs ++ encode ns)

theorem ComparisonCodes.mono {names' : List Name} (hnames : names <+: names') {c : Comparison}
    {ns : List Node} (h : ComparisonCodes names c ns) : ComparisonCodes names' c ns := by
  have ⟨ms, ms', hl, hr, hns⟩ := h
  exact ⟨ms, ms', hl.mono hnames, hr.mono hnames, hns⟩

/-- The code of a comparison has the size of the comparison. -/
theorem ComparisonCodes.size {c : Comparison} {ns : List Node} (h : ComparisonCodes names c ns) :
    (encode ns).length = c.clause.size := by
  have ⟨ms, ms', hl, hr, hns⟩ := h
  rw [hns, encode_cons, encode_append, length_append, length_append, length_rel, hl.size,
    hr.size, Comparison.clause, Clause.size, Nat.add_assoc]

/-- A condition that is grouped as it is read starts with an operand. -/
theorem grouped_starts {c : Comparison} (hc : c.Ok) (rest : List Token) :
    ∃ u us, c.clause.tokens ++ rest = u :: us ∧ u ≠ .leftParen := by
  have hoperand : ∀ e : Expr, e.IsOperand → ∃ u us, e.tokens = u :: us ∧ u ≠ .leftParen := by
    intro e he
    cases he <;> exact ⟨_, [], rfl, Token.noConfusion⟩
  have hbin : ∀ (op : ArithOp) (left right : Expr), left.IsOperand →
      ∃ u us, (Expr.bin op left right).tokens = u :: us ∧ u ≠ .leftParen := by
    intro op left right hleft
    have ⟨u, us, hu, hne⟩ := hoperand _ hleft
    exact ⟨u, us ++ op.token :: right.tokens, by rw [Expr.tokens, hu, cons_append], hne⟩
  have hexpr : ∃ u us, c.left.tokens = u :: us ∧ u ≠ .leftParen := by
    have ⟨k, he⟩ := hc.left
    generalize c.left = e at he
    cases he with
    | operand h => exact hoperand _ h
    | bin op hl hr => exact hbin op _ _ hl
    | group op hl he => exact hbin op _ _ hl
    | double op hl he => exact hbin op _ _ hl
  have ⟨u, us, hu, hne⟩ := hexpr
  refine ⟨u, us ++ c.op.token :: c.right.tokens ++ rest, ?_, hne⟩
  rw [Comparison.clause, Clause.tokens, hu]
  simp

/-- No connective follows. -/
def EndsConditions (t : Token) : Prop := Stops t ∧ connectiveOf t = none

/-- **The loop of conditions accepts a chain**: each connective is put in front of the comparison
that was read last. -/
theorem whereLoop_accepts (nestedWhere : AqlParser) (limit : ℕ) (ht : EndsConditions t) :
    ∀ (tail : Tail) (c : Comparison) (fuel : ℕ) (s : Aql) (names : List Name) (bs : List Byte)
      (ns : List Node), At q s (tailTokens tail ++ t :: ts) names (bs ++ encode ns) →
      ComparisonCodes names c ns → (∀ t ∈ tail, t.2.Ok ∧ (t.1 = .and ∨ t.1 = .or)) →
      Fits names (tailAttrs tail) → (bs ++ encode ns).length + tailSize tail < dbVmBytecodeSize →
      tail.length + 1 ≤ fuel → (tailTokens tail).length + 1 ≤ limit →
      Accepts (whereLoop q (parseComparison q limit) nestedWhere fuel bs.length) s
        (EmitsChain q c tail (t :: ts) names bs) := by
  intro tail
  induction tail with
  | nil =>
    intro c fuel s names bs ns h hns _ _ _ hfuel _
    have h' : At q s (t :: ts) names (bs ++ encode ns) := h
    have hn := h'.next
    obtain ⟨n, hfuel⟩ := Nat.exists_eq_add_of_le' hfuel
    refine ⟨2, (s.next q).rewind, ?_, rfl, ns, hns, h'.next_rewind⟩
    rw [hfuel, length_nil, Nat.zero_add, whereLoop, hn.1]
    simp only [ht.2]
    rfl
  | cons o tail ih =>
    intro c fuel s names bs ns h hns hall hfits hroom hfuel hlimit
    have ho := hall o mem_cons_self
    rw [length_cons] at hfuel
    obtain ⟨n, hn⟩ := Nat.exists_eq_add_of_le' hfuel
    have hfuel' : fuel = n + tail.length + 1 + 1 := by omega
    rw [hfuel']
    have htokens : tailTokens (o :: tail) ++ t :: ts =
        o.1.token :: (o.2.clause.tokens ++ (tailTokens tail ++ t :: ts)) := by
      simp [tailTokens]
    have hattrs : tailAttrs (o :: tail) = o.2.clause.attrs ++ tailAttrs tail := rfl
    have hsize : tailSize (o :: tail) = 8 + o.2.clause.size + tailSize tail := by
      simp [tailSize]
    have hlength : (tailTokens (o :: tail)).length =
        1 + o.2.clause.tokens.length + (tailTokens tail).length := by
      simp [tailTokens]
      omega
    rw [htokens] at h
    rw [hattrs] at hfits
    rw [hsize] at hroom
    rw [hlength] at hlimit
    have hconnective : connectiveOf o.1.token = some o.1 := by
      rcases ho.2 with heq | heq <;> rw [heq] <;> rfl
    have hnext := h.next
    rw [Accepts, Runs, whereLoop, hnext.1]
    simp only [hconnective]
    have hslip : At q ((s.next q).slip .splitCondition
        (!conditionAt (s.next q).lvm.code bs.length dbVmBytecodeSize 0))
        (o.2.clause.tokens ++ (tailTokens tail ++ t :: ts)) names (bs ++ encode ns) :=
      hnext.2.congr rfl rfl
    have hpos : 0 < (encode ns).length := by
      rw [hns.size, Comparison.clause, Clause.size]
      omega
    refine putNode_puts lvmCmpOp (le32 o.1.word) hslip hpos rfl (by omega)
      fun s₁ h₁ => ?_
    -- the comparison that follows, and what is behind it
    have hbehind : ∃ t' ts', tailTokens tail ++ t :: ts = t' :: ts' ∧ Stops t' := by
      cases tail with
      | nil => exact ⟨t, ts, rfl, ht.1⟩
      | cons o' tail =>
        refine ⟨o'.1.token, _, rfl, ?_⟩
        have ho' := hall o' (mem_cons_of_mem _ mem_cons_self)
        rcases ho'.2 with heq | heq <;> rw [heq] <;> exact ⟨Token.noConfusion, rfl⟩
    obtain ⟨t', ts', hts', ht'⟩ := hbehind
    obtain ⟨u, us, hus, hu⟩ := grouped_starts ho.1 (tailTokens tail ++ t :: ts)
    have h₁' := h₁
    rw [hus] at h₁'
    have hnext₁ := h₁'.next
    have hback := h₁'.next_rewind
    rw [← hus, hts'] at hback
    simp only [Runs, hnext₁.1, if_neg hu]
    have hnode : bs ++ (le32 lvmCmpOp ++ le32 o.1.word ++ encode ns) =
        bs ++ encode (.rel o.1 :: ns) := by
      rw [encode_cons, Node.bytes]
    rw [hnode] at hback
    have hroom₁ : (bs ++ encode (.rel o.1 :: ns)).length + o.2.clause.size < dbVmBytecodeSize := by
      simp only [length_append, encode_cons, length_rel] at hroom ⊢
      omega
    obtain ⟨status, s₂, hrun, hstatus, ms, hms, hat₂⟩ :=
      parseComparison_accepts limit ho.1 ht' hback hfits.left hroom₁ (by omega)
    simp only [hrun, bind_some, hstatus]
    have hroom₂ : (bs ++ encode (.rel o.1 :: ns) ++ encode ms).length + tailSize tail <
        dbVmBytecodeSize := by
      have hsize' := hms.size
      simp only [length_append, encode_cons, length_rel] at hroom ⊢
      omega
    rw [← hts'] at hat₂
    have hstop : (bs ++ encode ns).length + 8 = (bs ++ encode (.rel o.1 :: ns)).length := by
      simp only [length_append, encode_cons, length_rel]
      omega
    rw [hstop]
    have hloop := ih o.2 (n + tail.length + 1) s₂ _ _ ms hat₂ hms
      (fun t ht => hall t (mem_cons_of_mem _ ht)) hfits.right hroom₂ (by omega) (by omega)
    refine hloop.mono fun status' s₃ h₃ => ⟨h₃.1, ?_⟩
    obtain ⟨ks, hks, hat₃⟩ := h₃.2
    refine ⟨.rel o.1 :: (ns ++ ks), ?_, ?_⟩
    · rw [hattrs, registerAll_append]
      refine ⟨ns, ks, hns.mono ?_, hks, rfl⟩
      exact (prefix_registerAll _ _).trans (prefix_registerAll _ _)
    · rw [hattrs, registerAll_append]
      rw [append_assoc, ← encode_append, cons_append] at hat₃
      exact hat₃

end Conditions

/-! ## Statements -/

section Statements

variable {t : Token} {ts : List Token} {names : List Name} {bs : List Byte}

/-- A list goes on behind a comma, or it ends. -/
theorem moreAfterComma_accepts {parser : AqlParser} {tss : List (List Token)} {post : Aql → Prop}
    (ht : t ≠ .comma)
    (h : At q s ((if tss = [] then [] else .comma :: commas tss) ++ t :: ts) names bs)
    (hend : ∀ s', At q s' (t :: ts) names bs → post s')
    (hmore : tss ≠ [] → ∀ s', At q s' (commas tss ++ t :: ts) names bs → Accepts parser s' post) :
    Accepts (moreAfterComma q (parsed parser done)) s post := by
  cases tss with
  | nil =>
    have h' : At q s (t :: ts) names bs := h
    have hn := h'.next
    refine ⟨2, (s.next q).rewind, ?_, rfl, hend _ h'.next_rewind⟩
    rw [moreAfterComma, hn.1, if_neg ht]
    rfl
  | cons us tss =>
    have h' : At q s (.comma :: (commas (us :: tss) ++ t :: ts)) names bs := h
    have hn := h'.next
    have hparsed : Accepts (parsed parser done) (s.next q) post :=
      (hmore (cons_ne_nil _ _) _ hn.2).parsed fun s' hs' => ⟨2, s', rfl, rfl, hs'⟩
    obtain ⟨status, s', hrun, hpost⟩ := hparsed
    refine ⟨status, s', ?_, hpost⟩
    rw [moreAfterComma, hn.1, if_pos rfl]
    exact hrun

theorem commas_cons (ts : List Token) (tss : List (List Token)) :
    commas (ts :: tss) = ts ++ if tss = [] then [] else .comma :: commas tss := by
  cases tss with
  | nil => simp [commas]
  | cons us tss => simp [commas]

/-- `CONSUME(IDENTIFIER)` -/
theorem At.consumeIdentifier {name : Name} {next : Name → AqlParser} {post : ℕ → Aql → Prop}
    (h : At q s (.identifier name :: ts) names bs)
    (hnext : ∀ s', At q s' ts names bs → Runs (next name) s' post) :
    Runs (consumeIdentifier q next) s post := by
  have hn := h.next
  have ⟨status, s', hrun, hpost⟩ := hnext _ hn.2
  exact ⟨status, s', by rw [Antelope.consumeIdentifier, hn.1]; exact hrun, hpost⟩

/-- `parse_attributes` -/
theorem parseAttributes_accepts (ht : t ≠ .comma) : ∀ (as : List Selected) (fuel : ℕ) (s : Aql),
    as ≠ [] → as.length ≤ fuel →
    At q s (commas (as.map Selected.tokens) ++ t :: ts) names bs →
    Accepts (parseAttributes q fuel) s fun s' => At q s' (t :: ts) names bs := by
  intro as
  induction as with
  | nil => exact fun _ _ hne => absurd rfl hne
  | cons a as ih =>
    intro fuel s _ hfuel h
    obtain ⟨n, hn⟩ := Nat.exists_eq_add_of_le' hfuel
    have hfuel' : fuel = n + as.length + 1 := hn
    rw [hfuel']
    rw [map_cons, commas_cons, append_assoc] at h
    have hmore : ∀ s', At q s' ((if as.map Selected.tokens = [] then [] else
        .comma :: commas (as.map Selected.tokens)) ++ t :: ts) names bs →
        Accepts (moreAfterComma q (parsed (parseAttributes q (n + as.length)) done)) s'
          fun s' => At q s' (t :: ts) names bs := by
      intro s' h'
      refine moreAfterComma_accepts ht h' (fun _ h => h) fun hne s'' h'' => ?_
      refine ih _ s'' (fun hnil => hne ?_) (by omega) h''
      rw [hnil, map_nil]
    by_cases hfunction : a.function = .none
    · rw [Selected.tokens, if_pos hfunction] at h
      have hnext := At.next (t := .identifier a.name) h
      have hback := At.next_rewind (t := .identifier a.name) h
      have hplain : aggregatorOf (s.next q).token = none := by rw [hnext.1]; rfl
      have hrun : Accepts (consumeIdentifier q fun name s =>
          moreAfterComma q (parsed (parseAttributes q (n + as.length)) done)
            (s.addAttribute name .unspecified 0 false)) (s.next q).rewind
          fun s' => At q s' (t :: ts) names bs := by
        refine At.consumeIdentifier hback fun s₁ h₁ => ?_
        have hadded := addAttribute_congr s₁ a.name false
        exact hmore _ (h₁.congr hadded.1 hadded.2)
      obtain ⟨status, s', hrun, hpost⟩ := hrun
      refine ⟨status, s', ?_, hpost⟩
      rw [parseAttributes]
      simp only [hplain]
      exact hrun
    · rw [Selected.tokens, if_neg hfunction] at h
      have hnext := At.next (t := a.function.token) h
      have haggregate : aggregatorOf (s.next q).token = some a.function := by
        rw [hnext.1]
        cases hcase : a.function with
        | none => exact absurd hcase hfunction
        | _ => rfl
      have hflag : At q ((s.next q).setAdt { (s.next q).adt with aggregate := true })
          ([.leftParen, .identifier a.name, .rightParen] ++ ((if as.map Selected.tokens = [] then []
            else .comma :: commas (as.map Selected.tokens)) ++ t :: ts)) names bs :=
        hnext.2.congr rfl rfl
      have hrun : Accepts (consume q .leftParen (consumeIdentifier q fun name s =>
          consume q .rightParen
            (moreAfterComma q (parsed (parseAttributes q (n + as.length)) done))
            (s.addAggregate a.function name)))
          ((s.next q).setAdt { (s.next q).adt with aggregate := true })
          fun s' => At q s' (t :: ts) names bs := by
        refine At.consume hflag fun s₁ h₁ => ?_
        refine At.consumeIdentifier h₁ fun s₂ h₂ => ?_
        have hadded := addAttribute_congr (((s₂.setAdt { s₂.adt with
          aggregators := Function.update s₂.adt.aggregators s₂.adt.attributeCount
            a.function }).write .aggregators s₂.adt.attributeCount).slip .aggregate
              (s₂.adt.attributeCount = aqlAttributeLimit)) a.name false
        exact At.consume (h₂.congr hadded.1 hadded.2) hmore
      obtain ⟨status, s', hrun, hpost⟩ := hrun
      refine ⟨status, s', ?_, hpost⟩
      rw [parseAttributes]
      simp only [haggregate]
      exact hrun

/-- `parse_relations` -/
theorem parseRelations_accepts (ht : t ≠ .comma) : ∀ (rs : List Name) (fuel : ℕ) (s : Aql),
    rs ≠ [] → rs.length ≤ fuel →
    At q s (commas (rs.map fun name => [.identifier name]) ++ t :: ts) names bs →
    Accepts (parseRelations q fuel) s fun s' => At q s' (t :: ts) names bs := by
  intro rs
  induction rs with
  | nil => exact fun _ _ hne => absurd rfl hne
  | cons r rs ih =>
    intro fuel s _ hfuel h
    have ⟨n, hn⟩ := Nat.exists_eq_add_of_le' hfuel
    have hfuel' : fuel = n + rs.length + 1 := hn
    rw [hfuel']
    rw [map_cons, commas_cons, append_assoc] at h
    refine At.consumeIdentifier h fun s₁ h₁ => ?_
    have hadded := addRelation_congr s₁ r
    refine moreAfterComma_accepts ht (h₁.congr hadded.1 hadded.2) (fun _ h => h)
      fun hne s₂ h₂ => ?_
    refine ih _ s₂ (fun hnil => hne ?_) (by omega) h₂
    rw [hnil, map_nil]

theorem length_le_tailTokens (tail : Tail) : tail.length ≤ (tailTokens tail).length := by
  induction tail with
  | nil => exact Nat.le_refl _
  | cons o tail ih =>
    have htokens : (tailTokens (o :: tail)).length =
        1 + o.2.clause.tokens.length + (tailTokens tail).length := by
      simp [tailTokens]
      omega
    rw [htokens, length_cons]
    omega

/-- **A chain of comparisons is accepted**, and its code is emitted. -/
theorem parseWhere_accepts {c : Clause} {head : Comparison} {tail : Tail} {fuel : ℕ}
    (hchain : IsChain c head tail) (ht : EndsConditions t) (h : At q s (c.tokens ++ t :: ts) [] [])
    (hfits : Fits [] c.attrs) (hsize : c.size < dbVmBytecodeSize)
    (hfuel : c.tokens.length + 2 ≤ fuel) :
    Accepts (parseWhere q fuel) s fun s' => ∃ ns names,
      ChainCodes names head tail ns ∧ At q s' (t :: ts) names (encode ns) := by
  have ⟨n, hn⟩ := Nat.exists_eq_add_of_le' (show 1 ≤ fuel by omega)
  rw [hn] at hfuel ⊢
  rw [hchain.attrs] at hfits
  rw [hchain.size] at hsize
  rw [hchain.tokens, append_assoc] at h
  rw [hchain.tokens, length_append] at hfuel
  have hbehind : ∃ t' ts', tailTokens tail ++ t :: ts = t' :: ts' ∧ Stops t' := by
    cases htail : tail with
    | nil => exact ⟨t, ts, rfl, ht.1⟩
    | cons o tail' =>
      refine ⟨o.1.token, _, rfl, ?_⟩
      have ho := hchain.tail o (by rw [htail]; exact mem_cons_self)
      rcases ho.2 with heq | heq <;> rw [heq] <;> exact ⟨Token.noConfusion, rfl⟩
  have ⟨t', ts', hts', ht'⟩ := hbehind
  rw [hts'] at h
  have hcomparison := parseComparison_accepts n hchain.head ht' h hfits.left
    (by rw [length_nil]; omega) (by omega)
  refine hcomparison.parsed fun s₁ h₁ => ?_
  have ⟨ns, hns, hat⟩ := h₁
  rw [← hts'] at hat
  have hroom : ([] ++ encode ns).length + tailSize tail < dbVmBytecodeSize := by
    rw [nil_append, hns.size]
    exact hsize
  have hlength := length_le_tailTokens tail
  have hloop := whereLoop_accepts (parseWhere q n) n ht tail head n s₁ _
    [] ns hat hns hchain.tail hfits.right hroom (by omega) (by omega)
  refine hloop.mono fun status s₂ h₂ => ⟨h₂.1, ?_⟩
  have ⟨ms, hms, hat₂⟩ := h₂.2
  exact ⟨ms, _, hms, hat₂⟩

/-- A query is accepted, and for all values of the attributes its condition is executed with the
result that it has as it is read. -/
def CompilesTo (q : QueryString) (attributes : ℕ → AqlAttribute) (c : Clause) : Prop :=
  ∃ s, aqlParse q (q.length + 3) (aqlStart attributes) = some (2, s) ∧ s.adt.condition = true ∧
    ∀ ρ, ∃ r, lvmExecute s.lvm.code (valuesOf s.lvm.names ρ) s.lvm.codeEnd =
      some (resultOf (c.value ρ), r)

/-- The status of a token. -/
theorem lexerNext_status {lexer : Lexer} (h : (lexerNext q lexer).2.token ≠ .none) :
    (lexerNext q lexer).1 = 1 := by
  rw [lexerNext] at h ⊢
  split
  · rename_i hquote
    rw [if_pos hquote, nextString] at h
    rw [nextString]
    split
    · rename_i hend
      rw [if_pos hend] at h
      exact absurd rfl h
    · rfl
  · rename_i hquote
    rw [if_neg hquote] at h
    split
    · rename_i hzero
      rw [if_pos hzero] at h
      exact absurd rfl h
    · split
      · rfl
      · split
        · rfl
        · rw [nextToken]
          split <;> rfl

theorem length_le_commas (tss : List (List Token)) (h : ∀ ts ∈ tss, ts ≠ []) :
    tss.length ≤ (commas tss).length := by
  induction tss with
  | nil => exact Nat.le_refl _
  | cons ts tss ih =>
    have hts := length_pos_iff.mpr (h ts mem_cons_self)
    rw [commas_cons, length_cons, length_append]
    have hrest := ih fun ts hts => h ts (mem_cons_of_mem _ hts)
    split
    · rename_i hnil
      rw [hnil, length_nil]
      omega
    · rw [length_cons]
      omega

/-- **A condition that is grouped as it is read is compiled to its value**, if there is room for its
code and for its variables. -/
theorem aqlParse_clause (q : QueryString) (attributes : ℕ → AqlAttribute) (w : SelectWhere)
    (hselected : w.selected ≠ []) (hrelations : w.relations ≠ [])
    (hquery : ahead q 0 w.tokens = true) (husual : w.clause.Usual)
    (hvariables : Fits [] w.clause.attrs) (hsize : w.clause.size < dbVmBytecodeSize)
    (hgrouped : w.clause.Grouped) : CompilesTo q attributes w.clause := by
  obtain ⟨head, tail, hchain, _, _⟩ := isChain_of_grouped w.clause husual hgrouped
  have hlength := length_le_of_ahead w.tokens 0 (Nat.zero_le _) hquery
  have hselectedLength := length_le_commas (w.selected.map Selected.tokens) (by
    intro ts hts
    obtain ⟨a, _, ha⟩ := List.mem_map.mp hts
    rw [← ha, Selected.tokens]
    split <;> exact List.cons_ne_nil _ _)
  have hrelationsLength := length_le_commas (w.relations.map fun name => [.identifier name]) (by
    intro ts hts
    obtain ⟨name, _, hname⟩ := List.mem_map.mp hts
    rw [← hname]
    exact List.cons_ne_nil _ _)
  rw [List.length_map] at hselectedLength hrelationsLength
  rw [SelectWhere.tokens] at hlength
  simp only [List.length_append, List.length_cons, List.length_nil] at hlength
  have hstart : At q (aqlStart attributes) w.tokens [] [] :=
    ⟨Nat.zero_le _, hquery, rfl, ⟨holds_nil, rfl⟩⟩
  rw [SelectWhere.tokens] at hstart
  have hnext := hstart.next
  have hstatus : (lexerNext q (aqlStart attributes).lexer).1 = 1 := by
    refine lexerNext_status ?_
    change ((aqlStart attributes).next q).token ≠ .none
    rw [hnext.1]
    exact Token.noConfusion
  have hparse : Accepts (aqlParse q (q.length + 3)) (aqlStart attributes) fun s' =>
      s'.adt.condition = true ∧ ∃ ns, ChainCodes s'.lvm.names head tail ns ∧
        Emitted s'.lvm (encode ns) := by
    have herror : aqlError 1 = false := rfl
    rw [Accepts, Runs, aqlParse, hstatus]
    simp only [hnext.1, herror, Bool.false_eq_true, if_false]
    refine (parseAttributes_accepts (t := .from_) Token.noConfusion w.selected (q.length + 3)
      (((aqlStart attributes).next q).setType .select) hselected (by omega)
      (hnext.2.congr rfl rfl)).parsed fun s₁ h₁ => ?_
    refine At.consume h₁ fun s₂ h₂ => ?_
    refine (parseRelations_accepts (t := .where_) Token.noConfusion w.relations (q.length + 3) s₂
      hrelations (by omega) h₂).parsed fun s₃ h₃ => ?_
    have hwhere := h₃.next
    simp only [Runs, if_pos hwhere.1]
    have hreset : At q (s₃.next q).resetLvm (w.clause.tokens ++ .end_ :: []) [] [] :=
      hwhere.2.setLvm rfl ⟨holds_nil, rfl⟩
    refine (parseWhere_accepts hchain ⟨⟨Token.noConfusion, rfl⟩, rfl⟩ hreset hvariables hsize
      (by omega)).parsed fun s₄ h₄ => ?_
    obtain ⟨ns, names, hcodes, hat⟩ := h₄
    have hset : At q s₄.setCondition [.end_] names (encode ns) := hat.congr rfl rfl
    have hend := hset.next
    refine ⟨2, s₄.setCondition.next q, ?_, rfl, rfl, ns, ?_, hat.emitted⟩
    · exact if_pos hend.1
    · have hnames : (s₄.setCondition.next q).lvm.names = names := hat.names
      rw [hnames]
      exact hcodes
  obtain ⟨status, s, hrun, hstatus, hcondition, ns, hcodes, hemitted⟩ := hparse
  rw [hstatus] at hrun
  refine ⟨s, hrun, hcondition, fun ρ => ?_⟩
  have hfuel : ns.length ≤ s.lvm.codeEnd := by
    rw [hemitted.codeEnd]
    exact length_le_encode ns
  rw [← hchain.value]
  exact hcodes.execute hchain.head hchain.tail hfuel hemitted.code

end Statements

/-! ## Two queries -/

/-- `SELECT a FROM r WHERE a * (b + 2) > c OR a = 1 AND c < b;` -/
def groupedQuery : QueryString :=
  queryOf (ascii "SELECT a FROM r WHERE a * (b + 2) > c OR a = 1 AND c < b;")
    (ascii_ne_zero (by decide +kernel))

/-- The query with a group as it is read. -/
def groupedSelect : SelectWhere where
  selected := [⟨.none, ascii "a"⟩]
  relations := [ascii "r"]
  clause := .or
    (.comparison .ge (.bin .mul (.attr (ascii "a")) (.paren (.bin .add (.attr (ascii "b"))
      (.const 2)))) (.attr (ascii "c")))
    (.and (.comparison .eq (.attr (ascii "a")) (.const 1))
      (.comparison .le (.attr (ascii "c")) (.attr (ascii "b"))))

theorem groupedQuery_compiles :
    CompilesTo groupedQuery (fun _ => unusedAttribute) groupedSelect.clause := by
  have hoperand : ∀ name, Expr.Grouped (.attr name) := fun name => ⟨1, .operand (.attr name)⟩
  refine aqlParse_clause groupedQuery (fun _ => unusedAttribute) groupedSelect
    (List.cons_ne_nil _ _) (List.cons_ne_nil _ _) (by decide +kernel) ?_
    ⟨by decide +kernel, by decide +kernel⟩ (by decide +kernel) ?_
  · refine ⟨by decide, ⟨by decide, by decide, ?_⟩, by decide, by decide, ?_⟩
    · exact ⟨⟨by decide, by decide, trivial, by decide, by decide, trivial, trivial⟩, trivial⟩
    · exact ⟨⟨by decide, by decide, trivial, trivial⟩, by decide, by decide, trivial, trivial⟩
  · refine ⟨⟨⟨1, ?_⟩, hoperand _⟩, ⟨⟨hoperand _, ⟨1, .operand (.const 1)⟩⟩, hoperand _, hoperand _⟩,
      trivial⟩
    exact .group .mul (.attr _) (.bin .add (.attr _) (.const 2))

/-- `SELECT a FROM r WHERE a + b * c > d;` -/
def chainQuery : QueryString :=
  queryOf (ascii "SELECT a FROM r WHERE a + b * c > d;")
    (ascii_ne_zero (by decide +kernel))

/-- The query with two operators as it is read. -/
def chainSelect : SelectWhere where
  selected := [⟨.none, ascii "a"⟩]
  relations := [ascii "r"]
  clause := .comparison .ge (.bin .add (.attr (ascii "a")) (.bin .mul (.attr (ascii "b"))
    (.attr (ascii "c")))) (.attr (ascii "d"))

/-- Two operators without parentheses: `a + b` is compared to `c * d`. -/
theorem chainQuery_misread :
    chainSelect.selected ≠ [] ∧ chainSelect.relations ≠ [] ∧
      ahead chainQuery 0 chainSelect.tokens = true ∧ chainSelect.clause.Usual ∧
      (registerAll [] chainSelect.clause.attrs).length ≤ lvmMaxVariableId ∧
      (∀ name ∈ chainSelect.clause.attrs, name.length ≤ lvmMaxNameLength) ∧
      chainSelect.clause.size ≤ dbVmBytecodeSize ∧
      ¬ CompilesTo chainQuery (fun _ => unusedAttribute) chainSelect.clause := by
  refine ⟨List.cons_ne_nil _ _, List.cons_ne_nil _ _, by decide +kernel, ?_, by decide +kernel,
    by decide +kernel, by decide +kernel, ?_⟩
  · exact ⟨by decide, by decide, ⟨by decide, by decide, trivial, by decide, by decide, trivial,
      trivial⟩, trivial⟩
  · rintro ⟨s, hrun, _, hvalue⟩
    have ⟨r, hexecute⟩ := hvalue fun name =>
      if name = ascii "a" then 1 else if name = ascii "d" then 5 else 0
    have htrue : (aqlParse chainQuery (chainQuery.length + 3)
        (aqlStart fun _ => unusedAttribute)).bind (fun result =>
          (lvmExecute result.2.lvm.code (valuesOf result.2.lvm.names fun name =>
            if name = ascii "a" then 1 else if name = ascii "d" then 5 else 0)
              result.2.lvm.codeEnd).map fun run => run.1.toOption) = some (some true) := by
      decide +kernel
    have hfalse : chainSelect.clause.value (fun name =>
        if name = ascii "a" then 1 else if name = ascii "d" then 5 else 0) = some false := by
      decide +kernel
    rw [hrun, Option.bind_some, hexecute, hfalse] at htrue
    cases htrue

end Asap.Antelope
