import Asap.Antelope.Lvm

/-!
# The lexer

A query is a string with a terminator. The lexer skips blanks and takes a number, a string in
quotes, or what comes before the next separator: a keyword or an identifier. It can go back to where
the last token started.

## Main definitions

* `Token` — tokens, with their values.
* `QueryString` — the memory of a query.
* `lexerNext`, `lexerRewind` — the lexer, with how far it has read.
-/

namespace Asap.Antelope

open Lib

/-- `token_t`, with what is in `value`. -/
inductive Token
  | end_ | leftParen | rightParen | comma | equal | gt | lt | dot | add | sub | mul | div | comment
  | geq | leq | notEqual | assign | or | is | on | in_
  | and | not | sum | max | min | int
  | into | from_ | mean | join | long | type
  | where_ | count | index
  | insert | select | remove | create | median | domain | string | inline
  | project | maxheap | memhash
  | relation
  | attribute_
  | integerValue (value : Long)
  | stringValue (value : List Byte)
  | identifier (name : Name)
  | none
deriving DecidableEq, Repr

/-- The bytes of a string of ASCII characters. -/
def ascii (s : String) : List Byte := s.toList.map fun c => BitVec.ofNat 8 c.toNat

/-- `keywords` -/
def keywords : List (List Byte × Token) :=
  [(";", .end_), ("(", .leftParen), (")", .rightParen), (",", .comma), ("=", .equal), (">", .gt),
    ("<", .lt), (".", .dot), ("+", .add), ("-", .sub), ("*", .mul), ("/", .div), ("#", .comment),
    (">=", .geq), ("<=", .leq), ("<>", .notEqual), ("<-", .assign), ("OR", .or), ("IS", .is),
    ("ON", .on), ("IN", .in_),
    ("AND", .and), ("NOT", .not), ("SUM", .sum), ("MAX", .max), ("MIN", .min), ("INT", .int),
    ("INTO", .into), ("FROM", .from_), ("MEAN", .mean), ("JOIN", .join), ("LONG", .long),
    ("TYPE", .type),
    ("WHERE", .where_), ("COUNT", .count), ("INDEX", .index),
    ("INSERT", .insert), ("SELECT", .select), ("REMOVE", .remove), ("CREATE", .create),
    ("MEDIAN", .median), ("DOMAIN", .domain), ("STRING", .string), ("INLINE", .inline),
    ("PROJECT", .project), ("MAXHEAP", .maxheap), ("MEMHASH", .memhash),
    ("RELATION", .relation),
    ("ATTRIBUTE", .attribute_)].map fun k => (ascii k.1, k.2)

/-- `skip_hint`: where the keywords of each length start. -/
def skipHint : List ℕ := [0, 13, 21, 27, 33, 36, 44, 47, 48]

/-- `separators` -/
def separators : List Byte := ascii "#.;,() \t\n"

/-- The blanks. -/
def blanks : List Byte := ascii " \t\n"

/-- `tolower` -/
def toLower (b : Byte) : Byte := if 65 ≤ b ∧ b ≤ 90 then b + 32 else b

/-- `get_token_id`: `strncasecmp` with the keywords of the same length. -/
def getTokenId (s : List Byte) : Token :=
  if skipHint.length < s.length ∨ s.length < 1 then .none
  else
    let start := skipHint.getD (s.length - 1) 0
    let stop := if skipHint.length = s.length then keywords.length else skipHint.getD s.length 0
    match ((keywords.take stop).drop start).find? fun k =>
        (k.1.take s.length).map toLower = s.map toLower with
    | some k => k.2
    | none => .none

/-- A query in memory: its characters, and the terminator. -/
structure QueryString where
  mem : ℕ → Byte
  length : ℕ
  terminator : mem length = 0
  inside : ∀ i < length, mem i ≠ 0

/-- The characters of a string that is none of them `NUL`. -/
theorem ascii_ne_zero {cs : List Char} (h : cs.all fun c => BitVec.ofNat 8 c.toNat != 0) :
    ∀ b ∈ ascii (String.ofList cs), b ≠ 0 := by
  rw [ascii, String.toList_ofList]
  intro b hb
  have ⟨c, hc, heq⟩ := List.mem_map.mp hb
  have hne := List.all_eq_true.mp h c hc
  rw [heq] at hne
  exact bne_iff_ne.mp hne

/-- A query of these characters. -/
def queryOf (bytes : List Byte) (h : ∀ b ∈ bytes, b ≠ 0) : QueryString where
  mem := fun i => (bytes[i]?).getD 0
  length := bytes.length
  terminator := by
    rw [List.getElem?_eq_none (Nat.le_refl _)]
    rfl
  inside := by
    intro i hi
    rw [List.getElem?_eq_getElem hi]
    exact h _ (List.getElem_mem hi)

/-- `lexer_t`, with the token, and how far the query was read. -/
structure Lexer where
  input : ℕ
  prevPos : ℕ
  token : Token
  reads : ℕ

/-- `DB_MAX_ELEMENT_SIZE` -/
def dbMaxElementSize : ℕ := 16

section Next

variable (q : QueryString)

/-- The first position from `pos` on where a character is not of a kind. -/
def scan (kind : Byte → Bool) : ℕ → ℕ → ℕ
  | 0, pos => pos
  | fuel + 1, pos => if kind (q.mem pos) then scan kind fuel (pos + 1) else pos

/-- `strspn` and `strcspn`: where the characters of a kind end. -/
def spanEnd (kind : Byte → Bool) (pos : ℕ) : ℕ := scan q kind (q.length + 1 - pos) pos

/-- `isdigit` -/
def isDigit (b : Byte) : Bool := 48 ≤ b ∧ b ≤ 57

/-- The number that digits stand for. -/
def digitsValue (digits : List Byte) : ℕ := digits.foldl (fun n b => 10 * n + (b.toNat - 48)) 0

/-- `strtol`, of digits with or without a sign, within the bounds of `long`. -/
def strtol (negative : Bool) (digits : List Byte) : Long :=
  let n := digitsValue digits
  if negative then if n > 2 ^ 31 then BitVec.intMin 32 else -BitVec.ofNat 32 n
  else if n ≥ 2 ^ 31 then BitVec.intMax 32 else BitVec.ofNat 32 n

section

variable (lexer : Lexer)

/-- The lexer with a token that ends before `input`. -/
def Lexer.accept (pos : ℕ) (token : Token) (input reads : ℕ) : Lexer where
  input := input
  prevPos := pos
  token := token
  reads := max lexer.reads reads

/-- `next_real`, of a number with digits from `start` on. -/
def nextReal (pos start : ℕ) : ℕ × Lexer :=
  let stop := spanEnd q isDigit start
  (1, lexer.accept pos (.integerValue (strtol (start ≠ pos) (bytesAt q.mem start (stop - start))))
    stop stop)

/-- `next_string`, of a string from `start` on: its closing quote may be missing. -/
def nextString (pos start : ℕ) : ℕ × Lexer :=
  let stop := spanEnd q (fun b => b ≠ 39 ∧ b ≠ 0) start
  if q.mem stop = 0 then
    -- the status is minus one
    (4294967295, { lexer with prevPos := pos, token := .none, reads := max lexer.reads stop })
  else
    (1, lexer.accept pos
      (.stringValue (bytesAt q.mem start (min (stop - start) (dbMaxElementSize - 1))))
      (stop + 1) stop)

/-- `next_token` -/
def nextToken (pos : ℕ) : ℕ × Lexer :=
  let stop := max (spanEnd q (fun b => b ∉ separators ∧ b ≠ 0) pos) (pos + 1)
  match getTokenId (bytesAt q.mem pos (stop - pos)) with
  | .none =>
    (1, lexer.accept pos
      (.identifier (bytesAt q.mem pos (min (stop - pos) (dbMaxElementSize - 1)))) stop stop)
  | token => (1, lexer.accept pos token stop stop)

/-- `lexer_next`, with its status. -/
def lexerNext : ℕ × Lexer :=
  let pos := spanEnd q (fun b => b ∈ blanks) lexer.input
  let c := q.mem pos
  if c = 39 then nextString q lexer pos (pos + 1)
  else if c = 0 then
    (0, { lexer with prevPos := pos, token := .none, reads := max lexer.reads pos })
  else if isDigit c then nextReal q lexer pos pos
  else if c = 45 ∧ isDigit (q.mem (pos + 1)) then nextReal q lexer pos (pos + 1)
  else nextToken q lexer pos

end

end Next

/-- `lexer_start` -/
def lexerStart : Lexer := ⟨0, 0, .none, 0⟩

/-- `lexer_rewind` -/
def lexerRewind (lexer : Lexer) : Lexer := { lexer with input := lexer.prevPos }

end Asap.Antelope
