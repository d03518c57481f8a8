import Asap.Antelope.AqlRun

/-!
# Conditions as they are read

A condition is read in the usual way: parentheses first, products before sums, arithmetic before
relations, `AND` before `OR`, and else from left to right. The tokens of a condition are those of its
parts in their order.

## Main definitions

* `Expr`, `Clause` — expressions and conditions with their parentheses.
* `Expr.Usual`, `Clause.Usual` — what is read as an operator's operands.
* `Expr.value`, `Clause.value` — what they stand for, with a division by zero as an error.
* `Ahead` — the tokens that are ahead in a query.
-/

namespace Asap.Antelope

open Lib

/-! ## Expressions -/

/-- An expression as it is read. -/
inductive Expr
  | const (l : Long)
  | attr (name : Name)
  | paren (e : Expr)
  | bin (op : ArithOp) (left right : Expr)
deriving DecidableEq

/-- The token of an operator. -/
def ArithOp.token : ArithOp → Token
  | .add => .add
  | .sub => .sub
  | .mul => .mul
  | .div => .div

/-- A product is read before a sum. -/
def ArithOp.level : ArithOp → ℕ
  | .add => 0
  | .sub => 0
  | .mul => 1
  | .div => 1

namespace Expr

/-- The tokens of an expression. -/
def tokens : Expr → List Token
  | const l => [.integerValue l]
  | attr name => [.identifier name]
  | paren e => .leftParen :: (e.tokens ++ [.rightParen])
  | bin op left right => left.tokens ++ op.token :: right.tokens

/-- How tightly an expression holds together. -/
def level : Expr → ℕ
  | bin op _ _ => op.level
  | _ => 2

/-- The operands of each operator are what is usually read as such. -/
def Usual : Expr → Prop
  | const _ => True
  | attr _ => True
  | paren e => e.Usual
  | bin op left right =>
    op.level ≤ left.level ∧ op.level < right.level ∧ left.Usual ∧ right.Usual

/-- The value of an operator; there is none for a division by zero. -/
def operate : ArithOp → Long → Long → Option Long
  | .add, a, b => some (a + b)
  | .sub, a, b => some (a - b)
  | .mul, a, b => some (a * b)
  | .div, a, b => if b = 0 then none else some (a.sdiv b)

/-- The value of an expression, if there is no division by zero in it. -/
def value (ρ : Name → Long) : Expr → Option Long
  | const l => some l
  | attr name => some (ρ name)
  | paren e => e.value ρ
  | bin op left right => (left.value ρ).bind fun a => (right.value ρ).bind fun b => operate op a b

/-- The bytes of code that an expression needs. -/
def size : Expr → ℕ
  | const _ => 12
  | attr _ => 12
  | paren e => e.size
  | bin _ left right => 8 + left.size + right.size

/-- The attributes of an expression, in their order. -/
def attrs : Expr → List Name
  | const _ => []
  | attr name => [name]
  | paren e => e.attrs
  | bin _ left right => left.attrs ++ right.attrs

end Expr

/-! ## Conditions -/

/-- A condition as it is read: `AND`, or else `OR`. -/
inductive Clause
  | comparison (op : RelOp) (left right : Expr)
  | paren (c : Clause)
  | and (left right : Clause)
  | or (left right : Clause)
deriving DecidableEq

/-- The token of a relation. -/
def RelOp.token : RelOp → Token
  | .eq => .equal
  | .neq => .notEqual
  | .ge => .gt
  | .geq => .geq
  | .le => .lt
  | .leq => .leq
  | .and => .and
  | .or => .or

/-- What a relation says; a connective is none. -/
def RelOp.holds : RelOp → Long → Long → Option Bool
  | .eq, a, b => some (a = b)
  | .neq, a, b => some (a ≠ b)
  | .ge, a, b => some (b.slt a)
  | .geq, a, b => some (b.sle a)
  | .le, a, b => some (a.slt b)
  | .leq, a, b => some (a.sle b)
  | .and, _, _ => none
  | .or, _, _ => none

namespace Clause

/-- The tokens of a condition. -/
def tokens : Clause → List Token
  | comparison op left right => left.tokens ++ op.token :: right.tokens
  | paren c => .leftParen :: (c.tokens ++ [.rightParen])
  | and left right => left.tokens ++ .and :: right.tokens
  | or left right => left.tokens ++ .or :: right.tokens

/-- How tightly a condition holds together. -/
def level : Clause → ℕ
  | or _ _ => 0
  | and _ _ => 1
  | _ => 2

/-- A relation compares two expressions, and the operands of each connective are what is usually
read as such. -/
def Usual : Clause → Prop
  | comparison op left right => op ≠ .and ∧ op ≠ .or ∧ left.Usual ∧ right.Usual
  | paren c => c.Usual
  | and left right => 1 ≤ left.level ∧ 1 < right.level ∧ left.Usual ∧ right.Usual
  | or left right => 0 < right.level ∧ left.Usual ∧ right.Usual

/-- Whether a condition is true, if there is no division by zero in it. -/
def value (ρ : Name → Long) : Clause → Option Bool
  | comparison op left right =>
    (left.value ρ).bind fun a => (right.value ρ).bind fun b => op.holds a b
  | paren c => c.value ρ
  | and left right => (left.value ρ).bind fun a => (right.value ρ).map fun b => a && b
  | or left right => (left.value ρ).bind fun a => (right.value ρ).map fun b => a || b

/-- The bytes of code that a condition needs. -/
def size : Clause → ℕ
  | comparison _ left right => 8 + left.size + right.size
  | paren c => c.size
  | and left right => 8 + left.size + right.size
  | or left right => 8 + left.size + right.size

/-- The attributes of a condition, in their order. -/
def attrs : Clause → List Name
  | comparison _ left right => left.attrs ++ right.attrs
  | paren c => c.attrs
  | and left right => left.attrs ++ right.attrs
  | or left right => left.attrs ++ right.attrs

end Clause

/-! ## Statements -/

/-- The token of an aggregate function. -/
def AqlAggregator.token : AqlAggregator → Token
  | .none => .none
  | .count => .count
  | .sum => .sum
  | .min => .min
  | .max => .max
  | .mean => .mean
  | .median => .median

/-- An attribute that is selected, with the function that is applied to it. -/
structure Selected where
  function : AqlAggregator
  name : Name

/-- The tokens of an attribute that is selected. -/
def Selected.tokens (a : Selected) : List Token :=
  if a.function = .none then [.identifier a.name]
  else [a.function.token, .leftParen, .identifier a.name, .rightParen]

/-- Tokens with commas between them. -/
def commas : List (List Token) → List Token
  | [] => []
  | [ts] => ts
  | ts :: tss => ts ++ .comma :: commas tss

/-- A statement with a condition. -/
structure SelectWhere where
  selected : List Selected
  relations : List Name
  clause : Clause

/-- The tokens of a statement with a condition. -/
def SelectWhere.tokens (w : SelectWhere) : List Token :=
  .select :: (commas (w.selected.map Selected.tokens) ++ .from_ ::
    (commas (w.relations.map fun name => [.identifier name]) ++ .where_ ::
      (w.clause.tokens ++ [.end_])))

/-! ## Tokens of a query -/

/-- The token at a position, and where it ends. -/
def lexAt (q : QueryString) (pos : ℕ) : Token × ℕ :=
  let lexer := (lexerNext q ⟨pos, pos, .none, pos⟩).2
  (lexer.token, lexer.input)

/-- The tokens that are ahead. -/
def ahead (q : QueryString) : ℕ → List Token → Bool
  | _, [] => true
  | pos, t :: ts => (lexAt q pos).1 = t ∧ t ≠ .none ∧ ahead q (lexAt q pos).2 ts

end Asap.Antelope
