import Asap.Coap.OptionCodec

/-!
# What is parsed is what was built

A message that is built with the setters is serialized, and the bytes are parsed. The options of
the message are a list of options with values, `optionsOf`, whose bytes are what is written; the
parser applies them one after the other to an empty message. What comes back differs from what
was set in a few cases, each of which belongs to one option: a string whose last separator is
lost, a block size that is no power of two, a `more` that is neither zero nor one, and a proxy
option, which is not parsed at all.

## Main definitions

* `optionsOf` — the options of a message with their values.
* `RoundTrip` — the message comes back.
* `Kept`, `Lossless` — an option, and a message, that comes back.
-/

namespace Asap.Coap

open Lib BitVec List

variable {mem : ℕ → Byte} {cfg : CoapConfig} {m : CoapMessage CStr} {w : Written}
  {l : List (CoapOption × List Byte)} {o : CoapOption}

/-! ## The options of a message -/

/-- All options, in the order of their numbers. -/
def CoapOption.all : List CoapOption :=
  [ifMatch, uriHost, etag, ifNoneMatch, observe, uriPort, locationPath, uriPath, contentFormat,
    maxAge, uriQuery, accept, locationQuery, block2, block1, size2, proxyUri, proxyScheme, size1]

/-- The pieces of a string that is split. -/
def CStr.pieces (s : CStr) (sep : Byte) : List (List Byte) := stringParts s.bytes s.len sep

/-- The values that are written for an option. -/
def valuesOf (m : CoapMessage CStr) : CoapOption → List (List Byte)
  | .ifMatch => [m.ifMatch]
  | .uriHost => [(m.strings .uriHost).content]
  | .etag => [m.etag]
  | .ifNoneMatch => [intBytes 0]
  | .observe => [intBytes m.observe]
  | .uriPort => [intBytes (m.uriPort.setWidth 32)]
  | .locationPath => (m.strings .locationPath).pieces 0x2F
  | .uriPath => (m.strings .uriPath).pieces 0x2F
  | .contentFormat => [intBytes (m.contentFormat.setWidth 32)]
  | .maxAge => [intBytes m.maxAge]
  | .uriQuery => (m.strings .uriQuery).pieces 0x26
  | .accept => [intBytes (m.accept.setWidth 32)]
  | .locationQuery => (m.strings .locationQuery).pieces 0x26
  | .block2 => [intBytes (blockValue m.block2)]
  | .block1 => [intBytes (blockValue m.block1)]
  | .size2 => [intBytes m.size2]
  | .proxyUri => [(m.strings .proxyUri).content]
  | .proxyScheme => [(m.strings .proxyScheme).content]
  | .size1 => [intBytes m.size1]

/-- An option with values, if it is set. -/
def piecesOf (m : CoapMessage CStr) (o : CoapOption) (values : List (List Byte)) :
    List (CoapOption × List Byte) :=
  if m.isOption o.number then values.map (Prod.mk o) else []

/-- **The options of a message**, with their values. -/
def optionsOf (m : CoapMessage CStr) : List (CoapOption × List Byte) :=
  CoapOption.all.flatMap fun o => piecesOf m o (valuesOf m o)

/-- What is written is a list of options. -/
structure Writes (w : Written) (l : List (CoapOption × List Byte)) : Prop where
  bytes : w.bytes = encode 0 l
  number : w.currentNumber = lastNumber 0 l

/-- An option with one value. -/
theorem Writes.one {v : List Byte} {w' : Written} (h : Writes w l)
    (hset : m.isOption o.number = true → w' =
      ⟨w.bytes ++ (coapSetOptionHeader (o.number - w.currentNumber) v.length ++ v), o.number⟩)
    (hunset : m.isOption o.number = false → w' = w) :
    Writes w' (l ++ piecesOf m o [v]) := by
  cases hoption : m.isOption o.number with
  | true =>
    have hpieces : piecesOf m o [v] = [(o, v)] := by simp [piecesOf, hoption]
    rw [hset hoption, hpieces]
    refine ⟨?_, ?_⟩
    · simp [encode_append, h.bytes, h.number, encode]
    · simp [lastNumber_append, lastNumber]
  | false =>
    have hpieces : piecesOf m o [v] = [] := by simp [piecesOf, hoption]
    rw [hunset hoption, hpieces, append_nil]
    exact h

theorem Writes.int (h : Writes w l) (o : CoapOption) (v : BitVec 32) :
    Writes (w.int m o.number v) (l ++ piecesOf m o [intBytes v]) := by
  apply h.one
  · intro hoption
    simp [Written.int, hoption, coapSerializeIntOption]
  · intro hoption
    simp [Written.int, hoption]

theorem bytesAt_getD (bs : List Byte) : bytesAt (fun i => bs.getD i 0) 0 bs.length = bs := by
  apply ext_getElem
  · simp
  · intro i hi hi'
    simp [bytesAt, hi']

theorem Writes.byte (h : Writes w l) (o : CoapOption) (field : List Byte) :
    Writes (w.byte m o.number field) (l ++ piecesOf m o [field]) := by
  apply h.one
  · intro hoption
    simpa [Written.byte, hoption, coapSerializeArrayOption] using bytesAt_getD field
  · intro hoption
    simp [Written.byte, hoption]

theorem Writes.string (h : Writes w l) (o : CoapOption) (field : CoapString) :
    Writes (w.string m o.number field 0) (l ++ piecesOf m o [(m.strings field).content]) := by
  apply h.one
  · intro hoption
    simp [Written.string, hoption, coapSerializeArrayOption, CStr.content]
  · intro hoption
    simp [Written.string, hoption]

/-- The loop writes an option for each piece. -/
theorem serializeParts_eq (o : CoapOption) (array : ℕ → Byte) (length : ℕ) (sep : Byte)
    (fuel j start current : ℕ) :
    serializeParts o.number array length sep fuel j start current =
      encode current ((parts array length sep fuel j start).map (Prod.mk o)) := by
  induction fuel generalizing j start current with
  | zero => rfl
  | succ fuel ih =>
    simp only [serializeParts, parts]
    split
    · split
      · simp [encode, ih]
      · exact ih (j + 1) start current
    · rfl

theorem lastNumber_map (o : CoapOption) (current : ℕ) (p : List Byte) (ps : List (List Byte)) :
    lastNumber current ((p :: ps).map (Prod.mk o)) = o.number := by
  induction ps generalizing current p with
  | nil => rfl
  | cons q ps ih => exact ih o.number q

theorem Writes.split (h : Writes w l) (o : CoapOption) (field : CoapString) {sep : Byte}
    (hsep : sep ≠ 0) :
    Writes (w.string m o.number field sep) (l ++ piecesOf m o ((m.strings field).pieces sep)) := by
  cases hoption : m.isOption o.number with
  | true =>
    obtain ⟨p, ps, hparts, -, -⟩ := @merged_stringParts (m.strings field).bytes sep
      (m.strings field).len
    have hpieces : piecesOf m o ((m.strings field).pieces sep) =
        (stringParts (m.strings field).bytes (m.strings field).len sep).map (Prod.mk o) := by
      simp [piecesOf, hoption, CStr.pieces]
    rw [hpieces, Written.string, if_pos hoption]
    refine ⟨?_, ?_⟩
    · simp only [coapSerializeArrayOption, if_pos hsep, encode_append, h.bytes, h.number]
      rw [serializeParts_eq, stringParts]
    · rw [lastNumber_append, hparts, lastNumber_map]
  | false =>
    have hpieces : piecesOf m o ((m.strings field).pieces sep) = [] := by simp [piecesOf, hoption]
    have hw : w.string m o.number field sep = w := by simp [Written.string, hoption]
    rw [hpieces, hw, append_nil]
    exact h

/-- **What is written are the options of the message.** -/
theorem serializeOptions_bytes (m : CoapMessage CStr) :
    (serializeOptions m).bytes = encode 0 (optionsOf m) := by
  have h : Writes ⟨[], 0⟩ [] := ⟨rfl, rfl⟩
  have h := Writes.byte (m := m) h .ifMatch m.ifMatch
  have h := Writes.string (m := m) h .uriHost .uriHost
  have h := Writes.byte (m := m) h .etag m.etag
  have h := Writes.int (m := m) h .ifNoneMatch 0
  have h := Writes.int (m := m) h .observe m.observe
  have h := Writes.int (m := m) h .uriPort (m.uriPort.setWidth 32)
  have h := @Writes.split m _ _ h .locationPath .locationPath 0x2F (by decide)
  have h := @Writes.split m _ _ h .uriPath .uriPath 0x2F (by decide)
  have h := Writes.int (m := m) h .contentFormat (m.contentFormat.setWidth 32)
  have h := Writes.int (m := m) h .maxAge m.maxAge
  have h := @Writes.split m _ _ h .uriQuery .uriQuery 0x26 (by decide)
  have h := Writes.int (m := m) h .accept (m.accept.setWidth 32)
  have h := @Writes.split m _ _ h .locationQuery .locationQuery 0x26 (by decide)
  have h := Writes.int (m := m) h .block2 (blockValue m.block2)
  have h := Writes.int (m := m) h .block1 (blockValue m.block1)
  have h := Writes.int (m := m) h .size2 m.size2
  have h := Writes.string (m := m) h .proxyUri .proxyUri
  have h := Writes.string (m := m) h .proxyScheme .proxyScheme
  have h := Writes.int (m := m) h .size1 m.size1
  refine h.bytes.trans (congrArg (encode 0) ?_)
  simp [optionsOf, CoapOption.all, valuesOf]

/-! ## The order of the options -/

theorem mem_piecesOf {x : CoapOption × List Byte} {values : List (List Byte)}
    (h : x ∈ piecesOf m o values) : x.1 = o ∧ m.isOption o.number = true := by
  unfold piecesOf at h
  split at h
  next hoption =>
    obtain ⟨v, -, rfl⟩ := List.mem_map.mp h
    exact ⟨rfl, hoption⟩
  next => simp at h

theorem pairwise_optionsOf (m : CoapMessage CStr) :
    (optionsOf m).Pairwise fun x y => x.1.number ≤ y.1.number := by
  have hall : CoapOption.all.Pairwise fun o o' => o.number ≤ o'.number := by decide
  rw [optionsOf, pairwise_flatMap]
  refine ⟨?_, ?_⟩
  · intro o _
    apply pairwise_of_forall_mem_list
    intro x hx y hy
    rw [(mem_piecesOf hx).1, (mem_piecesOf hy).1]
  · refine hall.imp fun hle x hx y hy => ?_
    rwa [(mem_piecesOf hx).1, (mem_piecesOf hy).1]

/-- A value is no longer than what is written. -/
theorem length_value_le {current : ℕ} {x : CoapOption × List Byte} (h : x ∈ l) :
    x.2.length ≤ (encode current l).length := by
  induction l generalizing current with
  | nil => simp at h
  | cons y l ih =>
    simp only [encode, length_append]
    rcases List.mem_cons.mp h with rfl | h
    · omega
    · have hle := @ih y.1.number h
      omega

theorem ascending_of_pairwise {current : ℕ} (hsorted : l.Pairwise fun x y => x.1.number ≤ y.1.number)
    (hcurrent : ∀ x ∈ l, current ≤ x.1.number) (hlen : ∀ x ∈ l, x.2.length ≤ maxExtended) :
    Ascending current l := by
  induction l generalizing current with
  | nil => trivial
  | cons x l ih =>
    rw [pairwise_cons] at hsorted
    rw [forall_mem_cons] at hcurrent hlen
    exact ⟨hcurrent.1, hlen.1, ih hsorted.2 hsorted.1 hlen.2⟩

/-! ## The value of an option -/

/-- A field that one option sets is what the values of that option make of it. -/
theorem applyAll_filter {α : Type} (field : CoapMessage (List Byte) → α) (o : CoapOption)
    (hother : ∀ a o' v, o' ≠ o → field (applyOption a o' v) = field a)
    (hself : ∀ a a' v, field a = field a' →
      field (applyOption a o v) = field (applyOption a' o v))
    {a a' : CoapMessage (List Byte)} (h : field a = field a') :
    field (applyAll a l) = field (applyAll a' (l.filter fun x => x.1 = o)) := by
  induction l generalizing a a' with
  | nil => exact h
  | cons x l ih =>
    by_cases hx : x.1 = o
    · rw [filter_cons_of_pos (by simpa using hx)]
      have hstep := hself a a' x.2 h
      rw [← hx] at hstep
      exact ih hstep
    · rw [filter_cons_of_neg (by simpa using hx)]
      apply ih
      rw [hother a x.1 x.2 hx, h]

theorem filter_piecesOf {o' : CoapOption} {values : List (List Byte)} :
    ((piecesOf m o' values).filter fun x => x.1 = o) = if o' = o then piecesOf m o' values else [] := by
  unfold piecesOf
  by_cases ho : o' = o
  · cases m.isOption o'.number <;> simp [ho]
  · cases m.isOption o'.number <;> simp [ho]

theorem filter_optionsOf (m : CoapMessage CStr) (o : CoapOption) :
    ((optionsOf m).filter fun x => x.1 = o) = piecesOf m o (valuesOf m o) := by
  have hall : ∀ o : CoapOption, (CoapOption.all.filter fun o' => o' = o) = [o] := by
    intro o
    cases o <;> rfl
  have hflat : ∀ os : List CoapOption,
      (os.flatMap fun o' => if o' = o then piecesOf m o' (valuesOf m o') else []) =
        (os.filter fun o' => o' = o).flatMap fun o' => piecesOf m o' (valuesOf m o') := by
    intro os
    induction os with
    | nil => rfl
    | cons o' os ih => by_cases ho : o' = o <;> simp [ho, ih]
  rw [optionsOf, filter_flatMap]
  simp only [filter_piecesOf]
  rw [hflat, hall]
  simp

/-- What a message is that has not been given an option. -/
abbrev noOptions : CoapMessage (List Byte) := CoapMessage.zero []

/-- **The value that comes back** for an option with one value. -/
theorem field_applyAll {α : Type} (field : CoapMessage (List Byte) → α) (o : CoapOption)
    {v : List Byte} {a : CoapMessage (List Byte)} (hvalues : valuesOf m o = [v])
    (hoption : m.isOption o.number = true)
    (hself : ∀ a a' v, field (applyOption a o v) = field (applyOption a' o v))
    (hother : ∀ a o' v, o' ≠ o → field (applyOption a o' v) = field a := by
      intro a o' v ho; cases o' <;> first | rfl | exact absurd rfl ho) :
    field (applyAll a (optionsOf m)) = field (applyOption noOptions o v) := by
  rw [applyAll_filter field o hother (fun a a' v _ => hself a a' v) rfl, filter_optionsOf,
    piecesOf, if_pos hoption, hvalues]
  exact hself a noOptions v

theorem strings_mergeString (a : CoapMessage (List Byte)) (opt : ℕ) (field : CoapString)
    {sep : Byte} (v : List Byte) :
    (mergeString sep field v (a.setOption opt)).strings field = mergeOne sep (a.strings field) v := by
  have hstrings : (a.setOption opt).strings = a.strings := by
    unfold CoapMessage.setOption
    split <;> rfl
  simp [mergeString, CoapMessage.setString, hstrings]

/-- The value that comes back for a string that is split. -/
theorem string_applyAll (sep : Byte) (field : CoapString) (o : CoapOption)
    {a : CoapMessage (List Byte)} (hvalues : valuesOf m o = (m.strings field).pieces sep)
    (hoption : m.isOption o.number = true) (hempty : a.strings field = [])
    (hself : ∀ a v, (applyOption a o v).strings field = mergeOne sep (a.strings field) v)
    (hother : ∀ a o' v, o' ≠ o → (applyOption a o' v).strings field = a.strings field := by
      intro a o' v ho; cases o' <;> first | rfl | exact absurd rfl ho) :
    (applyAll a (optionsOf m)).strings field = merged sep ((m.strings field).pieces sep) := by
  rw [applyAll_filter (fun a => a.strings field) o hother
    (fun a a' v h => by rw [hself, hself, h]) rfl, filter_optionsOf, piecesOf, if_pos hoption,
    hvalues, merged]
  obtain ⟨ps, hps⟩ : ∃ ps, (m.strings field).pieces sep = ps := ⟨_, rfl⟩
  rw [hps, ← hempty]
  clear hps hempty
  induction ps generalizing a with
  | nil => rfl
  | cons p ps ih =>
    rw [map_cons, foldl_cons, ← hself]
    exact ih

theorem isOption_setOption {S : Type} (a : CoapMessage S) (o : CoapOption) (k : ℕ) :
    (a.setOption o.number).isOption k = (a.isOption k || decide (k = o.number)) := by
  have hle := o.number_le
  rw [CoapMessage.setOption, if_neg (Nat.not_lt.mpr hle)]
  by_cases hk : k = o.number
  · simp [CoapMessage.isOption, hk, hle]
  · simp [CoapMessage.isOption, hk]

theorem isOption_applyOption (a : CoapMessage (List Byte)) (o : CoapOption) (v : List Byte) (k : ℕ) :
    (applyOption a o v).isOption k = (a.isOption k || decide (k = o.number)) := by
  rw [← isOption_setOption]
  cases o <;> rfl

theorem isOption_applyAll (a : CoapMessage (List Byte)) (l : List (CoapOption × List Byte)) (k : ℕ) :
    (applyAll a l).isOption k = (a.isOption k || l.any fun x => decide (k = x.1.number)) := by
  induction l generalizing a with
  | nil => simp [applyAll]
  | cons x l ih =>
    have hstep : applyAll a (x :: l) = applyAll (applyOption a x.1 x.2) l := rfl
    rw [hstep, ih, isOption_applyOption, any_cons, Bool.or_assoc]

/-! ## What the setters build -/

/-- What the setters see to. -/
structure BlockOk (b : Block) : Prop where
  num : b.num.toNat ≤ 0x0FFFFF
  size : 16 ≤ b.size.toNat ∧ b.size.toNat ≤ 2048

/-- **The messages that the setters build.** -/
structure Built (cfg : CoapConfig) (m : CoapMessage CStr) : Prop where
  token : m.token.length = m.tokenLen ∧ m.tokenLen ≤ coapTokenLen
  etag : m.etag.length ≤ coapEtagLen
  ifMatch : m.ifMatch.length ≤ coapEtagLen
  named : ∀ k, m.isOption k = true → ∃ o : CoapOption, o.number = k
  path : ∀ field, (m.strings field).bytes (m.strings field).len ≠ 0x2F
  query : ∀ field, (m.strings field).bytes (m.strings field).len ≠ 0x26
  block2 : m.isOption CoapOption.block2.number = true → BlockOk m.block2
  block1 : m.isOption CoapOption.block1.number = true → BlockOk m.block1
  payload : m.payload.len ≤ cfg.maxChunkSize

/-- A field that no block option, string or token is in is set together with its option. -/
theorem Built.setOption (h : Built cfg m) (o : CoapOption)
    (h2 : o = .block2 → BlockOk m.block2) (h1 : o = .block1 → BlockOk m.block1) :
    Built cfg (m.setOption o.number) := by
  have hfields : (m.setOption o.number) =
      { m with options := Function.update m.options o.number true } :=
    if_neg (Nat.not_lt.mpr o.number_le)
  have hoption : ∀ k, (m.setOption o.number).isOption k = true →
      m.isOption k = true ∨ k = o.number := by
    intro k hk
    rw [isOption_setOption] at hk
    simpa using hk
  refine ⟨?_, ?_, ?_, ?_, ?_, ?_, ?_, ?_, ?_⟩
  · rw [hfields]
    exact h.token
  · rw [hfields]
    exact h.etag
  · rw [hfields]
    exact h.ifMatch
  · intro k hk
    rcases hoption k hk with hk | rfl
    · exact h.named k hk
    · exact ⟨o, rfl⟩
  · rw [hfields]
    exact h.path
  · rw [hfields]
    exact h.query
  · intro hk
    have hblock : BlockOk m.block2 := by
      rcases hoption _ hk with hk | hk
      · exact h.block2 hk
      · exact h2 (Option.some.inj (by
          rw [← CoapOption.ofNumber_number o, ← hk, CoapOption.ofNumber_number]))
    rw [hfields]
    exact hblock
  · intro hk
    have hblock : BlockOk m.block1 := by
      rcases hoption _ hk with hk | hk
      · exact h.block1 hk
      · exact h1 (Option.some.inj (by
          rw [← CoapOption.ofNumber_number o, ← hk, CoapOption.ofNumber_number]))
    rw [hfields]
    exact hblock
  · rw [hfields]
    exact h.payload

theorem Built.setString {s : CStr} (h : Built cfg m) (field : CoapString)
    (hpath : s.bytes s.len ≠ 0x2F) (hquery : s.bytes s.len ≠ 0x26) :
    Built cfg (m.setString field s) where
  token := h.token
  etag := h.etag
  ifMatch := h.ifMatch
  named := h.named
  path f := by
    by_cases hf : f = field
    · simpa [CoapMessage.setString, hf] using hpath
    · simpa [CoapMessage.setString, hf] using h.path f
  query f := by
    by_cases hf : f = field
    · simpa [CoapMessage.setString, hf] using hquery
    · simpa [CoapMessage.setString, hf] using h.query f
  block2 := h.block2
  block1 := h.block1
  payload := h.payload

/-- A string that ends with a zero does not end with a separator. -/
theorem memory_strlen (s : CString) : s.memory s.strlen = 0 := by
  simp [CString.memory, CString.strlen]

theorem Built.setCString (h : Built cfg m) (field : CoapString) (s : CString) :
    Built cfg (m.setString field s.toCStr) := by
  apply h.setString
  · simp [CString.toCStr, memory_strlen]
  · simp [CString.toCStr, memory_strlen]

/-- The byte that is found is at the position where it is found. -/
theorem memory_strchr {s : CString} {c : Byte} {k : ℕ} (h : s.strchr c = some k) : s.memory k = c := by
  obtain ⟨hk, hc, -⟩ := findIdx?_eq_some_iff_getElem.mp h
  have hget : (s.chars ++ [0])[k]? = some c := by
    rw [List.getElem?_append_left hk, List.getElem?_eq_getElem hk]
    simpa using hc
  change ((s.chars ++ [0])[k]?).getD (s.behind k) = c
  rw [hget]
  rfl

theorem Built.setLocationPath {s : CStr} (h : Built cfg m) (hpath : s.bytes s.len ≠ 0x2F)
    (hquery : s.bytes s.len ≠ 0x26) : Built cfg (setLocationPath m s) := by
  unfold Coap.setLocationPath
  split
  · exact (h.setString _ hpath hquery).setOption .locationPath (by simp) (by simp)
  · exact h.setString _ hpath hquery

theorem Built.apply (h : Built cfg m) (setter : Setter) : Built cfg (setter.apply cfg m) := by
  cases setter with
  | statusCode v =>
    simp only [Setter.apply, coapSetStatusCode]
    split
    · exact { h with }
    · exact h
  | token v =>
    refine { h with token := ?_ }
    simp [Setter.apply, coapSetToken]
  | contentFormat v =>
    exact Built.setOption (m := { m with contentFormat := v.setWidth 16 }) { h with } .contentFormat
      (by simp) (by simp)
  | accept v =>
    exact Built.setOption (m := { m with accept := v.setWidth 16 }) { h with } .accept (by simp) (by simp)
  | maxAge v =>
    exact Built.setOption (m := { m with maxAge := v }) { h with } .maxAge (by simp) (by simp)
  | etag v =>
    exact Built.setOption (m := { m with etag := v.take coapEtagLen })
      { h with etag := by simp } .etag (by simp) (by simp)
  | ifMatch v =>
    exact Built.setOption (m := { m with ifMatch := v.take coapEtagLen })
      { h with ifMatch := by simp } .ifMatch (by simp) (by simp)
  | ifNoneMatch => exact h.setOption .ifNoneMatch (by simp) (by simp)
  | proxyUri s => exact (h.setCString _ s).setOption .proxyUri (by simp) (by simp)
  | uriHost s => exact (h.setCString _ s).setOption .uriHost (by simp) (by simp)
  | uriPath s => exact (h.setCString _ _).setOption .uriPath (by simp) (by simp)
  | uriQuery s => exact (h.setCString _ _).setOption .uriQuery (by simp) (by simp)
  | locationPath s =>
    simp only [Setter.apply, coapSetHeaderLocationPath]
    split
    next query hquery =>
      have hmem := memory_strchr hquery
      refine Built.setLocationPath ((h.setCString _ _).setOption .locationQuery (by simp) (by simp))
        ?_ ?_
      · change (s.skip 0x2F).memory query ≠ 0x2F
        rw [hmem]
        decide
      · change (s.skip 0x2F).memory query ≠ 0x26
        rw [hmem]
        decide
    next =>
      apply h.setLocationPath
      · simp [CString.toCStr, memory_strlen]
      · simp [CString.toCStr, memory_strlen]
  | locationQuery s => exact (h.setCString _ _).setOption .locationQuery (by simp) (by simp)
  | observe v =>
    exact Built.setOption (m := { m with observe := v }) { h with } .observe (by simp) (by simp)
  | block2 num more size =>
    simp only [Setter.apply, coapSetHeaderBlock2]
    split
    next hargs =>
      have hblock : BlockOk { m.block2 with num, more := if more ≠ 0 then 1 else 0, size } :=
        ⟨hargs.2.2, hargs.1, hargs.2.1⟩
      exact Built.setOption
        (m := { m with block2 := { m.block2 with num, more := if more ≠ 0 then 1 else 0, size } })
        { h with block2 := fun _ => hblock }
        .block2 (fun _ => hblock) (by simp)
    next => exact h
  | block1 num more size =>
    simp only [Setter.apply, coapSetHeaderBlock1]
    split
    next hargs =>
      have hblock : BlockOk { m.block1 with num, more, size } := ⟨hargs.2.2, hargs.1, hargs.2.1⟩
      exact Built.setOption (m := { m with block1 := { m.block1 with num, more, size } })
        { h with block1 := fun _ => hblock }
        .block1 (by simp) (fun _ => hblock)
    next => exact h
  | size2 v =>
    exact Built.setOption (m := { m with size2 := v }) { h with } .size2 (by simp) (by simp)
  | size1 v =>
    exact Built.setOption (m := { m with size1 := v }) { h with } .size1 (by simp) (by simp)
  | payload v => exact { h with payload := Nat.min_le_left _ _ }

theorem built_coapInitMessage (cfg : CoapConfig) (type : CoapType) (code : Byte) (mid : BitVec 16) :
    Built cfg (coapInitMessage type code mid) where
  token := ⟨rfl, Nat.zero_le _⟩
  etag := Nat.zero_le _
  ifMatch := Nat.zero_le _
  named k hk := by simp [coapInitMessage, CoapMessage.zero, CoapMessage.isOption] at hk
  path _ := by simp [coapInitMessage, CoapMessage.zero]
  query _ := by simp [coapInitMessage, CoapMessage.zero]
  block2 hk := by simp [coapInitMessage, CoapMessage.zero, CoapMessage.isOption] at hk
  block1 hk := by simp [coapInitMessage, CoapMessage.zero, CoapMessage.isOption] at hk
  payload := Nat.zero_le _

/-- **Every message that is built with the setters is one of these.** -/
theorem built_build (cfg : CoapConfig) (type : CoapType) (code : Byte) (mid : BitVec 16)
    (setters : List Setter) : Built cfg (build cfg type code mid setters) := by
  have hinit := built_coapInitMessage cfg type code mid
  unfold build
  generalize coapInitMessage type code mid = m at hinit
  induction setters generalizing m with
  | nil => exact hinit
  | cons setter setters ih => exact ih _ (hinit.apply setter)

/-! ## Blocks -/

/-- The block options that come back: `more` is a flag, and the size is a power of two. -/
def BlockKept (b : Block) : Prop :=
  (b.more = 0 ∨ b.more = 1) ∧ b.size.toNat ∈ [16, 32, 64, 128, 256, 512, 1024, 2048]

/-- The fields of a block option that are compared. -/
def SameBlock (b b' : Block) : Prop := b'.num = b.num ∧ b'.more = b.more ∧ b'.size = b.size

theorem coapLog2_lt : ∀ q ≤ 128, coapLog2 q < 8 := by
  decide

theorem pow_coapLog2 : ∀ s ∈ [16, 32, 64, 128, 256, 512, 1024, 2048],
    16 <<< coapLog2 (s / 16) = s := by
  decide

theorem shiftLeft_mem : ∀ k < 8, (16#16 <<< k).toNat = 16 <<< k ∧
    16 <<< k ∈ [16, 32, 64, 128, 256, 512, 1024, 2048] := by
  decide

/-- The number of a block has its bits above the four lowest. -/
theorem blockValue_bits (num : BitVec 32) (hnum : num.toNat ≤ 0x0FFFFF) (more : BitVec 1)
    (k : BitVec 3) :
    ((num <<< 4 ||| more.setWidth 32 <<< 3) ||| k.setWidth 32) >>> 4 = num ∧
      (((num <<< 4 ||| more.setWidth 32 <<< 3) ||| k.setWidth 32) &&& 0x08) >>> 3 =
        more.setWidth 32 ∧
      ((num <<< 4 ||| more.setWidth 32 <<< 3) ||| k.setWidth 32) &&& 0x07 = k.setWidth 32 := by
  have hhigh : ∀ i, 28 ≤ i → num.getLsbD i = false := by
    intro i hi
    rw [← testBit_toNat]
    apply Nat.testBit_lt_two_pow
    calc num.toNat < 2 ^ 28 := by omega
      _ ≤ 2 ^ i := Nat.pow_le_pow_right (by decide) hi
  have h28 : num[28] = false := hhigh 28 (by decide)
  have h29 : num[29] = false := hhigh 29 (by decide)
  have h30 : num[30] = false := hhigh 30 (by decide)
  have h31 : num[31] = false := hhigh 31 (by decide)
  refine ⟨?_, ?_, ?_⟩
  · apply eq_of_getLsbD_eq
    intro i hi
    simp only [getLsbD_ushiftRight, getLsbD_or, getLsbD_shiftLeft,
      getLsbD_setWidth]
    interval_cases i <;> simp [h28, h29, h30, h31]
  · apply eq_of_getLsbD_eq
    intro i hi
    simp only [getLsbD_ushiftRight, getLsbD_and, getLsbD_or,
      getLsbD_shiftLeft, getLsbD_setWidth]
    interval_cases i <;> simp
  · apply eq_of_getLsbD_eq
    intro i hi
    simp only [getLsbD_and, getLsbD_or, getLsbD_shiftLeft,
      getLsbD_setWidth]
    interval_cases i <;> simp

/-- A block option comes back exactly if it is one of those that are kept. -/
theorem sameBlock_iff {b : Block} (h : BlockOk b) :
    SameBlock b (parseBlock (blockValue b)) ↔ BlockKept b := by
  obtain ⟨k, hk⟩ : ∃ k, coapLog2 (b.size.toNat / 16) = k := ⟨_, rfl⟩
  have hlt : k < 8 := by
    rw [← hk]
    have := h.size.2
    exact coapLog2_lt _ (by omega)
  have hmore : (if b.more ≠ 0 then 0x8 else 0 : BitVec 32) =
      (if b.more ≠ 0 then 1 else 0 : BitVec 1).setWidth 32 <<< 3 := by
    split <;> rfl
  have hsize : 0xF &&& BitVec.ofNat 32 k = (BitVec.ofNat 3 k).setWidth 32 := by
    interval_cases k <;> rfl
  obtain ⟨hnum, hflag, hlow⟩ := blockValue_bits b.num h.num (if b.more ≠ 0 then 1 else 0)
    (BitVec.ofNat 3 k)
  have hvalue : blockValue b = (b.num <<< 4 |||
      (if b.more ≠ 0 then 1 else 0 : BitVec 1).setWidth 32 <<< 3) |||
        (BitVec.ofNat 3 k).setWidth 32 := by
    rw [blockValue, hmore, hk, hsize]
  have htoNat : ((BitVec.ofNat 3 k).setWidth 32).toNat = k := by
    interval_cases k <;> rfl
  have hshift := shiftLeft_mem k hlt
  rw [SameBlock, BlockKept, hvalue]
  simp only [parseBlock, hnum, hflag, hlow, htoNat, true_and]
  have hmoreIff : ((if b.more ≠ 0 then 1 else 0 : BitVec 1).setWidth 32).setWidth 8 = b.more ↔
      b.more = 0 ∨ b.more = 1 := by
    by_cases hzero : b.more = 0#8
    · simp [hzero]
    · simp [hzero, eq_comm]
  rw [hmoreIff]
  refine and_congr_right fun _ => ?_
  constructor
  · intro heq
    rw [← heq, hshift.1]
    exact hshift.2
  · intro hmem
    apply eq_of_toNat_eq
    rw [hshift.1, ← hk]
    exact pow_coapLog2 _ hmem

/-! ## The round trip -/

/-- The value of an option comes back. Strings that are split come back up to one separator at
their start, and If-None-Match has no value. -/
def SameValue (m : CoapMessage CStr) (a : CoapMessage (List Byte)) : CoapOption → Prop
  | .ifMatch => a.ifMatch = m.ifMatch
  | .uriHost => a.strings .uriHost = (m.strings .uriHost).content
  | .etag => a.etag = m.etag
  | .ifNoneMatch => True
  | .observe => a.observe = m.observe
  | .uriPort => a.uriPort = m.uriPort
  | .locationPath => ComesBack 0x2F (m.strings .locationPath).content (a.strings .locationPath)
  | .uriPath => ComesBack 0x2F (m.strings .uriPath).content (a.strings .uriPath)
  | .contentFormat => a.contentFormat = m.contentFormat
  | .maxAge => a.maxAge = m.maxAge
  | .uriQuery => ComesBack 0x26 (m.strings .uriQuery).content (a.strings .uriQuery)
  | .accept => a.accept = m.accept
  | .locationQuery => ComesBack 0x26 (m.strings .locationQuery).content (a.strings .locationQuery)
  | .block2 => SameBlock m.block2 a.block2
  | .block1 => SameBlock m.block1 a.block1
  | .size2 => a.size2 = m.size2
  | .proxyUri => a.strings .proxyUri = (m.strings .proxyUri).content
  | .proxyScheme => a.strings .proxyScheme = (m.strings .proxyScheme).content
  | .size1 => a.size1 = m.size1

/-- **The message comes back:** it is accepted, with the same fields, options, values and payload. -/
structure RoundTrip (m : CoapMessage CStr) (mem : ℕ → Byte) (p : Parsed) : Prop where
  status : p.status = .noError
  version : p.message.version = 1
  type : p.message.type = m.type
  code : p.message.code = m.code
  mid : p.message.mid = m.mid
  token : p.message.tokenLen = m.tokenLen ∧ p.message.token = m.token
  options : ∀ k, p.message.isOption k = m.isOption k
  values : ∀ o : CoapOption, m.isOption o.number = true → SameValue m (view mem p.message) o
  payload : readSlice mem p.message.payload = m.payload.content

/-- The end of a string is kept. -/
def CStr.EndKept (s : CStr) (sep : Byte) : Prop := Coap.EndKept s.bytes s.len sep

/-- The options that come back. -/
def Kept (m : CoapMessage CStr) : CoapOption → Prop
  | .locationPath => (m.strings .locationPath).EndKept 0x2F
  | .uriPath => (m.strings .uriPath).EndKept 0x2F
  | .uriQuery => (m.strings .uriQuery).EndKept 0x26
  | .locationQuery => (m.strings .locationQuery).EndKept 0x26
  | .block2 => BlockKept m.block2
  | .block1 => BlockKept m.block1
  | .proxyUri | .proxyScheme => False
  | _ => True

/-- **The messages that come back**: each option that is set does. -/
def Lossless (m : CoapMessage CStr) : Prop :=
  ∀ o : CoapOption, m.isOption o.number = true → Kept m o

/-- **The value of an option** comes back exactly if it is kept. -/
theorem sameValue_iff {a : CoapMessage (List Byte)} (hbuilt : Built cfg m)
    (hempty : ∀ field, a.strings field = []) (hoption : m.isOption o.number = true)
    (hproxy : refuses o.number = false) :
    SameValue m (applyAll a (optionsOf m)) o ↔ Kept m o := by
  have hint : ∀ v, coapParseIntOption (intBytes v) = v := coapParseIntOption_intBytes
  cases o with
  | proxyUri => exact absurd hproxy (by decide)
  | proxyScheme => exact absurd hproxy (by decide)
  | ifNoneMatch => exact Iff.rfl
  | ifMatch =>
    have hvalue := field_applyAll (a := a) (fun a => a.ifMatch) .ifMatch rfl hoption fun _ _ _ => rfl
    simp only [SameValue, Kept, iff_true]
    rw [hvalue]
    exact take_of_length_le hbuilt.ifMatch
  | etag =>
    have hvalue := field_applyAll (a := a) (fun a => a.etag) .etag rfl hoption fun _ _ _ => rfl
    simp only [SameValue, Kept, iff_true]
    rw [hvalue]
    exact take_of_length_le hbuilt.etag
  | uriHost =>
    have hvalue := field_applyAll (a := a) (fun a => a.strings .uriHost) .uriHost rfl hoption
      fun _ _ _ => rfl
    simp only [SameValue, Kept, iff_true]
    exact hvalue
  | observe =>
    have hvalue := field_applyAll (a := a) (fun a => a.observe) .observe rfl hoption fun _ _ _ => rfl
    simp only [SameValue, Kept, iff_true]
    rw [hvalue]
    exact hint _
  | maxAge =>
    have hvalue := field_applyAll (a := a) (fun a => a.maxAge) .maxAge rfl hoption fun _ _ _ => rfl
    simp only [SameValue, Kept, iff_true]
    rw [hvalue]
    exact hint _
  | size2 =>
    have hvalue := field_applyAll (a := a) (fun a => a.size2) .size2 rfl hoption fun _ _ _ => rfl
    simp only [SameValue, Kept, iff_true]
    rw [hvalue]
    exact hint _
  | size1 =>
    have hvalue := field_applyAll (a := a) (fun a => a.size1) .size1 rfl hoption fun _ _ _ => rfl
    simp only [SameValue, Kept, iff_true]
    rw [hvalue]
    exact hint _
  | uriPort =>
    have hvalue := field_applyAll (a := a) (fun a => a.uriPort) .uriPort rfl hoption fun _ _ _ => rfl
    simp only [SameValue, Kept, iff_true]
    rw [hvalue]
    simp [applyOption, hint]
  | contentFormat =>
    have hvalue := field_applyAll (a := a) (fun a => a.contentFormat) .contentFormat rfl hoption
      fun _ _ _ => rfl
    simp only [SameValue, Kept, iff_true]
    rw [hvalue]
    simp [applyOption, hint]
  | accept =>
    have hvalue := field_applyAll (a := a) (fun a => a.accept) .accept rfl hoption fun _ _ _ => rfl
    simp only [SameValue, Kept, iff_true]
    rw [hvalue]
    simp [applyOption, hint]
  | block2 =>
    have hvalue := field_applyAll (a := a) (fun a => a.block2) .block2 rfl hoption fun _ _ _ => rfl
    simp only [SameValue, Kept]
    rw [hvalue]
    simp only [applyOption, hint]
    exact sameBlock_iff (hbuilt.block2 hoption)
  | block1 =>
    have hvalue := field_applyAll (a := a) (fun a => a.block1) .block1 rfl hoption fun _ _ _ => rfl
    simp only [SameValue, Kept]
    rw [hvalue]
    simp only [applyOption, hint]
    exact sameBlock_iff (hbuilt.block1 hoption)
  | uriPath =>
    have hvalue := string_applyAll 0x2F .uriPath .uriPath rfl hoption (hempty _)
      fun a v => strings_mergeString a _ _ v
    simp only [SameValue, Kept]
    rw [hvalue]
    exact comesBack_iff (hbuilt.path .uriPath)
  | locationPath =>
    have hvalue := string_applyAll 0x2F .locationPath .locationPath rfl hoption (hempty _)
      fun a v => strings_mergeString a _ _ v
    simp only [SameValue, Kept]
    rw [hvalue]
    exact comesBack_iff (hbuilt.path .locationPath)
  | uriQuery =>
    have hvalue := string_applyAll 0x26 .uriQuery .uriQuery rfl hoption (hempty _)
      fun a v => strings_mergeString a _ _ v
    simp only [SameValue, Kept]
    rw [hvalue]
    exact comesBack_iff (hbuilt.query .uriQuery)
  | locationQuery =>
    have hvalue := string_applyAll 0x26 .locationQuery .locationQuery rfl hoption (hempty _)
      fun a v => strings_mergeString a _ _ v
    simp only [SameValue, Kept]
    rw [hvalue]
    exact comesBack_iff (hbuilt.query .locationQuery)

end Asap.Coap
