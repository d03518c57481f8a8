import Asap.Coap.Serialize

/-!
# Splitting a string and merging the pieces

The serializer splits a string at its separators, and the parser merges the pieces of a message
with separators between them. Behind a separator the serializer steps over one byte, so of two
separators side by side the second opens the next piece. A string that ends right behind a
separator has its last piece cut off. That is the case when the number of separators at its end
is odd, and the empty first piece of a string that starts with one is lost when merging.

## Main definitions

* `parts` — the pieces of a string.
* `merged` — the pieces put together by the parser.
* `trailing` — the number of separators at the end of a string.
-/

namespace Asap.Coap

open Lib List

variable {array : ℕ → Byte} {sep : Byte} {length fuel j start : ℕ} {p : List Byte}
  {ps : List (List Byte)}

/-- The pieces that the loop of `coap_serialize_array_option` finds. -/
def parts (array : ℕ → Byte) (length : ℕ) (sep : Byte) : ℕ → ℕ → ℕ → List (List Byte)
  | 0, _, _ => []
  | fuel + 1, j, start =>
    if j ≤ length + 1 then
      if array j = sep ∨ j = length then
        bytesAt array start (j - start) :: parts array length sep fuel (j + 2) (j + 1)
      else parts array length sep fuel (j + 1) start
    else []

section

variable (sep : Byte)

/-- What `coap_merge_multi_option` makes of a string and a piece. -/
def mergeOne (acc p : List Byte) : List Byte :=
  if 0 < acc.length then acc ++ sep :: p else p

/-- What it makes of all pieces. -/
def merged (ps : List (List Byte)) : List Byte := ps.foldl (mergeOne sep) []

/-- The pieces with a separator before each. -/
def behind (ps : List (List Byte)) : List Byte := ps.flatMap fun p => sep :: p

/-- The number of separators at the end of a string. -/
def trailing (s : List Byte) : ℕ := (s.reverse.takeWhile (· == sep)).length

/-- Whether the loop is right behind a separator that it has seen, at the end of a string. -/
def seen (s : List Byte) : Bool := s.foldl (fun seen c => !seen && c == sep) false

/-- A separator is seen unless the byte before it was one that was seen. -/
theorem seen_eq_odd (s : List Byte) : seen sep s = (trailing sep s % 2 == 1) := by
  induction s using List.reverseRecOn with
  | nil => rfl
  | append_singleton s c ih =>
    simp only [seen, foldl_append, foldl_cons, foldl_nil] at ih ⊢
    rw [ih]
    by_cases hc : c = sep
    · have htrail : trailing sep (s ++ [c]) = trailing sep s + 1 := by
        simp [trailing, hc]
      rw [htrail]
      rcases Nat.mod_two_eq_zero_or_one (trailing sep s) with h | h
      · simp [h, hc, Nat.add_mod]
      · simp [h, hc, Nat.add_mod]
    · have htrail : trailing sep (s ++ [c]) = 0 := by
        simp [trailing, hc]
      simp [htrail, hc]

end

theorem seen_cons_of_ne {c : Byte} {s : List Byte} (h : c ≠ sep) : seen sep (c :: s) = seen sep s := by
  have hfalse : (c == sep) = false := beq_false_of_ne h
  simp [seen, hfalse]

theorem seen_cons_cons (sep : Byte) {c : Byte} {s : List Byte} :
    seen sep (sep :: c :: s) = seen sep s := by
  simp [seen]

theorem getLast_of_seen {s : List Byte} (h : seen sep s = true) : ∃ s', s = s' ++ [sep] := by
  induction s using List.reverseRecOn with
  | nil => simp [seen] at h
  | append_singleton s c _ =>
    simp only [seen, foldl_append, foldl_cons, foldl_nil, Bool.and_eq_true,
      beq_iff_eq] at h
    exact ⟨s, by rw [h.2]⟩

/-! ## Merging -/

theorem foldl_merge (hp : p ≠ []) :
    ps.foldl (mergeOne sep) p = p ++ behind sep ps := by
  induction ps generalizing p with
  | nil => simp [behind]
  | cons q ps ih =>
    have hpos : 0 < p.length := length_pos_iff.mpr hp
    rw [foldl_cons, mergeOne, if_pos hpos, ih (by simp)]
    simp [behind]

theorem merged_cons (hp : p ≠ []) : merged sep (p :: ps) = p ++ behind sep ps := foldl_merge hp

theorem merged_nil_cons : merged sep ([] :: ps) = merged sep ps := rfl

/-! ## Splitting -/

theorem ne_nil_of_mem_parts (h : start < j) (hp : p ∈ parts array length sep fuel j start) :
    p ≠ [] := by
  induction fuel generalizing j start with
  | zero => simp [parts] at hp
  | succ fuel ih =>
    rw [parts] at hp
    split at hp
    · split at hp
      · rcases mem_cons.mp hp with rfl | hp
        · intro hnil
          have hlen := congrArg List.length hnil
          simp at hlen
          omega
        · exact ih (by omega) hp
      · exact ih (by omega) hp
    · simp at hp

/-- What the loop finds past the end of the string, when its last byte was a separator. -/
def overrun (array : ℕ → Byte) (length : ℕ) (sep : Byte) : List (List Byte) :=
  if array (length + 1) = sep then [[array length]] else []

theorem parts_behind_end (hfuel : 1 ≤ fuel) :
    parts array length sep fuel (length + 1) length = overrun array length sep := by
  obtain ⟨fuel, rfl⟩ : ∃ k, fuel = k + 1 := ⟨fuel - 1, by omega⟩
  have hnil : ∀ j start, length + 2 ≤ j → parts array length sep fuel j start = [] := by
    intro j start hj
    cases fuel with
    | zero => rfl
    | succ fuel => rw [parts, if_neg (by omega)]
  by_cases hsep : array (length + 1) = sep
  · have hone : bytesAt array length 1 = [array length] := by simp [bytesAt]
    simp [parts, overrun, hsep, hone, hnil]
  · simp [parts, overrun, hsep, hnil]

/-- The end of a string: a last separator is dropped if it is seen, and what is past the end may
take its place. -/
def ending (array : ℕ → Byte) (length : ℕ) (sep : Byte) (s : List Byte) : List Byte :=
  if seen sep s then s.dropLast ++ behind sep (overrun array length sep) else s

theorem append_ending {s s' : List Byte} (h : seen sep (s ++ s') = seen sep s')
    (hs : s' = [] → seen sep s' = false) :
    ending array length sep (s ++ s') = s ++ ending array length sep s' := by
  unfold ending
  rw [h]
  cases hseen : seen sep s' with
  | false => simp
  | true =>
    have hne : s' ≠ [] := by
      intro hnil
      rw [hs hnil] at hseen
      exact Bool.false_ne_true hseen
    simp [dropLast_append_of_ne_nil hne]

/-- **The pieces are the string**, up to its end. -/
theorem parts_joined (hfuel : length + 2 ≤ j + fuel) (hj : j ≤ length) (hstart : start ≤ j) :
    ∃ p ps, parts array length sep fuel j start = p :: ps ∧
      p ++ behind sep ps =
        bytesAt array start (j - start) ++ ending array length sep (bytesAt array j (length - j)) := by
  obtain ⟨k, hk⟩ : ∃ k, length - j = k := ⟨_, rfl⟩
  induction k using Nat.strong_induction_on generalizing fuel j start with
  | _ k ih =>
    obtain ⟨fuel, rfl⟩ : ∃ n, fuel = n + 1 := ⟨fuel - 1, by omega⟩
    by_cases hend : j = length
    · -- the string ends without a separator that is seen
      subst hend
      have hnil : parts array j sep fuel (j + 2) (j + 1) = [] := by
        cases fuel with
        | zero => rfl
        | succ fuel => simp [parts]
      refine ⟨bytesAt array start (j - start), [], ?_, ?_⟩
      · simp [parts, hnil]
      · simp [behind, ending, seen, bytesAt]
    · have hsplit : bytesAt array j (length - j) =
          array j :: bytesAt array (j + 1) (length - (j + 1)) := by
        rw [← bytesAt_succ]
        congr 1
        omega
      by_cases hsep : array j = sep
      · by_cases hlast : j + 1 = length
        · subst hlast
          refine ⟨bytesAt array start (j - start), overrun array (j + 1) sep, ?_, ?_⟩
          · have hover := @parts_behind_end array sep (j + 1) fuel (by omega)
            have hle : j ≤ j + 1 + 1 := by omega
            simp [parts, hsep, hover, hle]
          · rw [hsplit, hsep]
            simp [ending, seen, bytesAt]
        · obtain ⟨p, ps, hparts, hjoin⟩ := @ih (length - (j + 2)) (by omega)
            fuel (j + 2) (j + 1) (by omega) (by omega) (by omega) rfl
          refine ⟨bytesAt array start (j - start), p :: ps, ?_, ?_⟩
          · simp [parts, hsep, hparts, Nat.le_succ_of_le hj]
          · have hnext : bytesAt array (j + 1) (length - (j + 1)) =
                array (j + 1) :: bytesAt array (j + 2) (length - (j + 2)) := by
              rw [← bytesAt_succ]
              congr 1
              omega
            have hone : bytesAt array (j + 1) (j + 2 - (j + 1)) = [array (j + 1)] := by
              have hsub : j + 2 - (j + 1) = 1 := by omega
              simp [hsub, bytesAt]
            rw [hone] at hjoin
            rw [hsplit, hnext, hsep]
            have happend := @append_ending array sep length [sep, array (j + 1)]
              (bytesAt array (j + 2) (length - (j + 2))) (seen_cons_cons sep)
              (fun h => by rw [h]; rfl)
            rw [cons_append, cons_append, nil_append] at happend
            rw [happend]
            simp only [behind, flatMap_cons] at hjoin ⊢
            rw [cons_append, hjoin]
            simp
      · obtain ⟨p, ps, hparts, hjoin⟩ := @ih (length - (j + 1)) (by omega)
          fuel (j + 1) start (by omega) (by omega) (by omega) rfl
        refine ⟨p, ps, ?_, ?_⟩
        · simp [parts, hsep, hparts, Nat.le_succ_of_le hj, hend]
        · have hgrow : bytesAt array start (j + 1 - start) =
              bytesAt array start (j - start) ++ [array j] := by
            have hsub : j + 1 - start = (j - start) + 1 := by omega
            have hadd : start + (j - start) = j := by omega
            rw [hsub, bytesAt_add, hadd]
            simp [bytesAt]
          have happend := @append_ending array sep length [array j]
            (bytesAt array (j + 1) (length - (j + 1))) (seen_cons_of_ne hsep)
            (fun h => by rw [h]; rfl)
          rw [singleton_append] at happend
          rw [hjoin, hgrow, hsplit, happend]
          simp

/-! ## The round trip of a string -/

/-- The pieces of a whole string. -/
def stringParts (array : ℕ → Byte) (length : ℕ) (sep : Byte) : List (List Byte) :=
  parts array length sep (length + 2) 0 0

/-- A string that comes back, up to one separator at its start. -/
def ComesBack (sep : Byte) (s result : List Byte) : Prop := result = s ∨ sep :: result = s

/-- The strings whose end is not lost. -/
def EndKept (array : ℕ → Byte) (length : ℕ) (sep : Byte) : Prop :=
  trailing sep (bytesAt array 0 length) % 2 = 0 ∨
    bytesAt array 0 length = [sep] ∧ array 2 ≠ sep

theorem ending_of_not_seen {s : List Byte} (h : seen sep s = false) :
    ending array length sep s = s := by
  simp [ending, h]

/-- A string that loses its end is not what the pieces are. -/
theorem ending_of_seen {s : List Byte} (h : seen sep s = true) :
    ∃ s', s = s' ++ [sep] ∧
      ending array length sep s = s' ++ behind sep (overrun array length sep) := by
  obtain ⟨s', rfl⟩ := getLast_of_seen h
  exact ⟨s', rfl, by simp [ending, h]⟩

theorem behind_overrun (array : ℕ → Byte) (length : ℕ) (sep : Byte) :
    behind sep (overrun array length sep) =
      if array (length + 1) = sep then [sep, array length] else [] := by
  by_cases h : array (length + 1) = sep <;> simp [behind, overrun, h]

/-- What the pieces are merged to: the string with the end that is kept of it, without an empty
first piece. -/
theorem merged_stringParts :
    ∃ p ps, stringParts array length sep = p :: ps ∧
      p ++ behind sep ps = ending array length sep (bytesAt array 0 length) ∧
      merged sep (stringParts array length sep) =
        if p = [] then (behind sep ps).tail else p ++ behind sep ps := by
  obtain ⟨p, ps, hparts, hjoin⟩ := @parts_joined array sep length (length + 2) 0 0 (by omega)
    (Nat.zero_le _) (Nat.le_refl _)
  have hjoin' : p ++ behind sep ps = ending array length sep (bytesAt array 0 length) := by
    simpa [bytesAt] using hjoin
  refine ⟨p, ps, hparts, hjoin', ?_⟩
  rw [stringParts, hparts]
  by_cases hp : p = []
  · subst hp
    rw [merged_nil_cons, if_pos rfl]
    cases ps with
    | nil => rfl
    | cons q qs =>
      have hq : q ≠ [] := by
        have hmem : q ∈ parts array length sep (length + 1) 2 1 := by
          rw [parts] at hparts
          simp only [Nat.zero_le, if_true] at hparts
          split at hparts
          · have htail := (List.cons.inj hparts).2
            rw [htail]
            exact mem_cons_self
          · have hnil : ([] : List Byte) ∈ parts array length sep (length + 1) 1 0 := by
              rw [hparts]
              exact mem_cons_self
            exact absurd rfl (ne_nil_of_mem_parts (by omega) hnil)
        exact ne_nil_of_mem_parts (by omega) hmem
      rw [merged_cons hq]
      simp [behind]
  · rw [if_neg hp, merged_cons hp]

/-- The first piece is empty when the string is, or when it starts with a separator. -/
theorem head_of_joined {s : List Byte} (h : p ++ behind sep ps = s) :
    p = [] → s = [] ∨ ∃ rest, s = sep :: rest := by
  intro hp
  subst hp
  rw [nil_append] at h
  cases ps with
  | nil => exact .inl h.symm
  | cons q qs => exact .inr ⟨q ++ behind sep qs, by rw [← h]; simp [behind]⟩

/-- The first piece of a string that starts with a separator is empty. -/
theorem piece_of_head (h : array 0 = sep)
    (hparts : stringParts array length sep = p :: ps) : p = [] := by
  rw [stringParts, parts] at hparts
  simp only [Nat.zero_le, if_true, h, true_or] at hparts
  have hhead := (List.cons.inj hparts).1
  rw [← hhead]
  rfl

/-- **The round trip of a string:** the merged pieces are the string, up to one separator at its
start, exactly if the end is kept. The byte at the end is not a separator. -/
theorem comesBack_iff (ht : array length ≠ sep) :
    ComesBack sep (bytesAt array 0 length) (merged sep (stringParts array length sep)) ↔
      EndKept array length sep := by
  obtain ⟨p, ps, hparts, hjoin, hmerged⟩ := @merged_stringParts array sep length
  obtain ⟨s, hs⟩ : ∃ s, bytesAt array 0 length = s := ⟨_, rfl⟩
  have hlen : s.length = length := by rw [← hs, length_bytesAt]
  have hodd := seen_eq_odd sep s
  rw [ComesBack, EndKept, hmerged, hs]
  rw [hs] at hjoin
  cases hseen : seen sep s with
  | false =>
    rw [hseen] at hodd
    have heven : trailing sep s % 2 = 0 := by
      rcases Nat.mod_two_eq_zero_or_one (trailing sep s) with h | h
      · exact h
      · simp [h] at hodd
    rw [ending_of_not_seen hseen] at hjoin
    simp only [heven, true_or, iff_true]
    by_cases hp : p = []
    · rw [if_pos hp]
      rw [hp, nil_append] at hjoin
      rcases head_of_joined (nil_append _ ▸ hjoin : [] ++ behind sep ps = s) rfl with
        hnil | ⟨rest, hrest⟩
      · rw [hjoin, hnil]
        exact .inl rfl
      · rw [hjoin, hrest]
        exact .inr rfl
    · rw [if_neg hp]
      exact .inl hjoin
  | true =>
    rw [hseen] at hodd
    have hnot : trailing sep s % 2 ≠ 0 := by
      intro h
      simp [h] at hodd
    obtain ⟨s', hs', hending⟩ := @ending_of_seen array sep length s hseen
    rw [hending, behind_overrun] at hjoin
    simp only [hnot, false_or]
    have hhead : ∀ rest, s = sep :: rest → p = [] := by
      intro rest hrest
      refine piece_of_head ?_ hparts
      obtain ⟨k, hk⟩ : ∃ k, length = k + 1 := ⟨rest.length, by rw [← hlen, hrest]; rfl⟩
      rw [hk, bytesAt_succ, hrest] at hs
      exact (List.cons.inj hs).1
    by_cases hp : p = []
    · rw [if_pos hp]
      rw [hp, nil_append] at hjoin
      rw [hjoin]
      by_cases hover : array (length + 1) = sep
      · rw [if_pos hover]
        cases s' with
        | nil =>
          have hone : length = 1 := by rw [← hlen, hs']; rfl
          rw [hone] at hover ht ⊢
          simp [hs', hover, ht]
        | cons c s'' =>
          have hne : s'' ++ [sep, array length] ≠ c :: s'' ++ [sep] := by
            intro h
            have hlast := congrArg List.getLast? h
            rw [List.getLast?_append, List.getLast?_append] at hlast
            exact ht (Option.some.inj hlast)
          simp only [hs', cons_append, tail_cons]
          constructor
          · rintro (h | h)
            · exact absurd h hne
            · have := congrArg List.length h
              simp at this
          · rintro ⟨h, -⟩
            have := congrArg List.length h
            simp at this
      · rw [if_neg hover, append_nil]
        constructor
        · rintro (h | h)
          · have := congrArg List.length h
            simp [hs'] at this
          · have hnil : s' = [] := by
              have := congrArg List.length h
              simp [hs'] at this
              exact length_eq_zero_iff.mp (by omega)
            have hone : length = 1 := by rw [← hlen, hs', hnil]; rfl
            rw [hone] at hover
            exact ⟨by rw [hs', hnil]; rfl, hover⟩
        · rintro ⟨h, -⟩
          have hnil : s' = [] := by
            have := congrArg List.length h
            simp [hs'] at this
            exact this
          rw [hnil, h]
          exact .inr rfl
    · rw [if_neg hp, hjoin]
      constructor
      · rintro (h | h)
        · have := congrArg List.length h
          by_cases hover : array (length + 1) = sep <;> simp [hs', hover] at this
        · exfalso
          by_cases hover : array (length + 1) = sep
          · have := congrArg List.length h
            simp [hs', hover] at this
          · rw [if_neg hover, append_nil] at h
            exact hp (hhead s' h.symm)
      · rintro ⟨h, -⟩
        exact absurd (hhead [] h) hp

end Asap.Coap
