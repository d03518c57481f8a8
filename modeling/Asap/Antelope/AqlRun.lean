import Asap.Antelope.AqlParser
import Asap.Antelope.LvmReading
import Mathlib.Data.List.Infix

/-!
# Runs of the parser

The lexer takes a token behind the last one, and does not read behind the terminator of the query.

## Main definitions

* `NextOk` — what the lexer does.
* `Runs` — a parser comes to an end, in a state with a property.
-/

namespace Asap.Antelope

open Lib

variable {q : QueryString}

/-! ## The lexer -/

section Scan

variable {kind : Byte → Bool} {fuel pos : ℕ}

theorem le_scan : pos ≤ scan q kind fuel pos := by
  induction fuel generalizing pos with
  | zero => exact Nat.le_refl _
  | succ fuel ih =>
    rw [scan]
    split
    · exact Nat.le_of_succ_le ih
    · exact Nat.le_refl _

/-- Characters of a kind end before the terminator, if it is not one of them. -/
theorem scan_le (hkind : kind 0 = false) (hpos : pos ≤ q.length) :
    scan q kind fuel pos ≤ q.length := by
  induction fuel generalizing pos with
  | zero => exact hpos
  | succ fuel ih =>
    rw [scan]
    split
    · rename_i hchar
      refine ih (Nat.lt_of_le_of_ne hpos ?_)
      rintro rfl
      rw [q.terminator, hkind] at hchar
      cases hchar
    · exact hpos

theorem le_spanEnd (pos : ℕ) : pos ≤ spanEnd q kind pos := le_scan

theorem spanEnd_le (hkind : kind 0 = false) (hpos : pos ≤ q.length) :
    spanEnd q kind pos ≤ q.length := scan_le hkind hpos

theorem lt_spanEnd (hpos : pos ≤ q.length) (hchar : kind (q.mem pos) = true) :
    pos < spanEnd q kind pos := by
  have hfuel : q.length + 1 - pos = q.length - pos + 1 := by omega
  rw [spanEnd, hfuel, scan, if_pos hchar]
  exact le_scan

end Scan

/-- A character before the terminator. -/
theorem lt_of_mem_ne_zero {pos : ℕ} (hpos : pos ≤ q.length) (h : q.mem pos ≠ 0) :
    pos < q.length := by
  refine Nat.lt_of_le_of_ne hpos ?_
  rintro rfl
  exact h q.terminator

/-- What the lexer does: it goes on inside the query, and behind a token that it takes. -/
structure NextOk (q : QueryString) (lexer lexer' : Lexer) : Prop where
  forward : lexer.input ≤ lexer'.input
  input : lexer'.input ≤ q.length
  back : lexer.input ≤ lexer'.prevPos
  prevPos : lexer'.prevPos ≤ q.length
  progress : lexer'.token ≠ .none → lexer'.prevPos < lexer'.input
  reads : lexer.reads ≤ q.length → lexer'.reads ≤ q.length
  size : Aql.valueSize lexer'.token ≤ dbMaxElementSize

section Next

variable {lexer : Lexer} {pos : ℕ}

/-- A token that ends inside the query. -/
theorem NextOk.accept {token : Token} {input reads : ℕ} (hback : lexer.input ≤ pos)
    (hpos : pos < input) (hinput : input ≤ q.length) (hreads : reads ≤ q.length)
    (hsize : Aql.valueSize token ≤ dbMaxElementSize) :
    NextOk q lexer (lexer.accept pos token input reads) where
  forward := Nat.le_of_lt (Nat.lt_of_le_of_lt hback hpos)
  input := hinput
  back := hback
  prevPos := Nat.le_of_lt (Nat.lt_of_lt_of_le hpos hinput)
  progress := fun _ => hpos
  reads := fun h => Nat.max_le.mpr ⟨h, hreads⟩
  size := hsize

/-- No token, and nothing is taken. -/
theorem NextOk.nothing {reads : ℕ} (hinput : lexer.input ≤ q.length) (hback : lexer.input ≤ pos)
    (hpos : pos ≤ q.length) (hreads : reads ≤ q.length) :
    NextOk q lexer
      { lexer with prevPos := pos, token := .none, reads := max lexer.reads reads } where
  forward := Nat.le_refl _
  input := hinput
  back := hback
  prevPos := hpos
  progress := fun h => absurd rfl h
  reads := fun h => Nat.max_le.mpr ⟨h, hreads⟩
  size := Nat.zero_le _

theorem nextReal_ok {start : ℕ} (hback : lexer.input ≤ pos) (hpos : pos ≤ start)
    (hstart : start ≤ q.length) (hdigit : isDigit (q.mem start) = true) :
    NextOk q lexer (nextReal q lexer pos start).2 := by
  have hle : spanEnd q isDigit start ≤ q.length := spanEnd_le rfl hstart
  exact .accept hback (Nat.lt_of_le_of_lt hpos (lt_spanEnd hstart hdigit)) hle hle
    (show 4 ≤ dbMaxElementSize by decide)

theorem nextString_ok (hinput : lexer.input ≤ q.length) (hback : lexer.input ≤ pos)
    (hpos : pos < q.length) : NextOk q lexer (nextString q lexer pos (pos + 1)).2 := by
  have hle : spanEnd q (fun b => b ≠ 39 ∧ b ≠ 0) (pos + 1) ≤ q.length :=
    spanEnd_le rfl hpos
  have hge : pos + 1 ≤ spanEnd q (fun b => b ≠ 39 ∧ b ≠ 0) (pos + 1) := le_spanEnd _
  rw [nextString]
  split
  · exact .nothing hinput hback (Nat.le_of_lt hpos) hle
  · rename_i hquote
    have hlt := lt_of_mem_ne_zero hle hquote
    refine .accept hback (by omega) hlt hle ?_
    rw [Aql.valueSize, length_bytesAt, dbMaxElementSize]
    omega

/-- A keyword has no value. -/
theorem valueSize_getTokenId (s : List Byte) : Aql.valueSize (getTokenId s) = 0 := by
  have hkeywords : ∀ k ∈ keywords, Aql.valueSize k.2 = 0 := by decide
  by_cases hlength : skipHint.length < s.length ∨ s.length < 1
  · rw [getTokenId, if_pos hlength]
    rfl
  · rw [getTokenId, if_neg hlength]
    dsimp only
    generalize hfind : List.find? _ (List.drop _ _) = found
    cases found with
    | none => rfl
    | some k =>
      have hmem := List.mem_of_mem_drop (List.mem_of_find?_eq_some hfind)
      exact hkeywords k (List.mem_of_mem_take hmem)

theorem nextToken_ok (hback : lexer.input ≤ pos) (hpos : pos < q.length) :
    NextOk q lexer (nextToken q lexer pos).2 := by
  have hle : max (spanEnd q (fun b => b ∉ separators ∧ b ≠ 0) pos) (pos + 1) ≤ q.length :=
    Nat.max_le.mpr ⟨spanEnd_le (by decide) (Nat.le_of_lt hpos), hpos⟩
  have hlt : pos < max (spanEnd q (fun b => b ∉ separators ∧ b ≠ 0) pos) (pos + 1) :=
    Nat.lt_of_lt_of_le (Nat.lt_succ_self pos) (Nat.le_max_right _ _)
  rw [nextToken]
  split
  · refine .accept hback hlt hle hle ?_
    rw [Aql.valueSize, length_bytesAt, dbMaxElementSize]
    omega
  · rename_i token hsome
    refine .accept hback hlt hle hle ?_
    rw [valueSize_getTokenId]
    exact Nat.zero_le _

/-- **The lexer stays inside** the query. -/
theorem lexerNext_ok (hinput : lexer.input ≤ q.length) : NextOk q lexer (lexerNext q lexer).2 := by
  have hle : spanEnd q (fun b => b ∈ blanks) lexer.input ≤ q.length :=
    spanEnd_le (by decide) hinput
  have hback : lexer.input ≤ spanEnd q (fun b => b ∈ blanks) lexer.input := le_spanEnd _
  rw [lexerNext]
  split
  · rename_i hquote
    exact nextString_ok hinput hback (lt_of_mem_ne_zero hle (by rw [hquote]; decide))
  · split
    · exact .nothing hinput hback hle hle
    · rename_i hchar
      have hlt := lt_of_mem_ne_zero hle hchar
      split
      · rename_i hdigit
        exact nextReal_ok hback (Nat.le_refl _) hle hdigit
      · split
        · rename_i hminus
          exact nextReal_ok hback (Nat.le_succ _) hlt hminus.2
        · exact nextToken_ok hback hlt

end Next

/-! ## Runs -/

/-- A parser comes to an end, with a status and in a state. -/
def Runs (parser : AqlParser) (s : Aql) (post : ℕ → Aql → Prop) : Prop :=
  ∃ status s', parser s = some (status, s') ∧ post status s'

namespace Runs

variable {s : Aql} {parser : AqlParser} {post mid : ℕ → Aql → Prop}

theorem mono (h : Runs parser s mid) (hpost : ∀ status s', mid status s' → post status s') :
    Runs parser s post := by
  have ⟨status, s', hrun, hmid⟩ := h
  exact ⟨status, s', hrun, hpost status s' hmid⟩

end Runs

end Asap.Antelope
