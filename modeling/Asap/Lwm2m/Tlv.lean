import Asap.Coap.Blockwise

/-!
# TLVs

The values of resources are sent as TLVs: a byte with the type, an identifier of one or two bytes, a
length of up to three bytes and the value. A number is sent in as few bytes as it needs. Around the
instances of a resource there is a TLV whose length is put in when they have been written.

## Main definitions

* `lwm2mTlvWrite`, `lwm2mTlvRead`, `lwm2mTlvGetSize` — TLVs.
* `lwm2mTlvWriteInt32`, `lwm2mTlvGetInt32` — numbers.
* `enterSub`, `writeInstances`, `exitSub` — the instances of a resource.
* `TlvLaw`, `IntLaw`, `ContainerLaw` — what is written is read.

## Main results

* `tlvLaws_iff` — the laws hold if and only if there is room for the identifier, and the instances have
  less than 256 bytes and a mark that is one byte.
-/

namespace Asap.Lwm2m

open Lib Coap List

/-! ## TLVs -/

/-- `lwm2m_tlv_t`; the value may be left out. -/
structure Tlv where
  type : Byte
  id : BitVec 16
  length : ℕ
  value : Option (ℕ → Byte)

/-- A byte of the value. -/
def Tlv.byte (tlv : Tlv) (i : ℕ) : Byte := tlv.value.elim 0 fun value => value i

/-- `get_len_type` -/
def getLenType (length : ℕ) : ℕ :=
  if length < 8 then 0 else if length < 256 then 1 else if length < 0x10000 then 2 else 3

/-- The bytes of an identifier. -/
def idBytes (id : BitVec 16) : List Byte :=
  (if 255 < id.toNat then [(id >>> 8).setWidth 8] else []) ++ [id.setWidth 8]

/-- The first byte of a header. -/
def firstByte (type : Byte) (id : BitVec 16) (lenType low : ℕ) : Byte :=
  type <<< 6 ||| (if 255 < id.toNat then (0x20 : Byte) else 0) ||| BitVec.ofNat 8 lenType <<< 3 |||
    BitVec.ofNat 8 low

/-- The bytes of a length. -/
def lengthBytes (length : ℕ) : List Byte :=
  (if 2 < getLenType length then [BitVec.ofNat 8 (length >>> 16)] else []) ++
    (if 1 < getLenType length then [BitVec.ofNat 8 (length >>> 8)] else []) ++
    (if 0 < getLenType length then [BitVec.ofNat 8 length] else [])

/-- The header that `lwm2m_tlv_write` writes. -/
def Tlv.header (tlv : Tlv) : List Byte :=
  firstByte tlv.type tlv.id (getLenType tlv.length)
      (if getLenType tlv.length = 0 then tlv.length else 0) ::
    (idBytes tlv.id ++ lengthBytes tlv.length)

/-- `lwm2m_tlv_write`: the bytes that are written, none when it returns zero. -/
def lwm2mTlvWrite (tlv : Tlv) (buffersize : ℕ) : List Byte :=
  let pos := 1 + getLenType tlv.length
  if tlv.value.isSome ∧ buffersize < tlv.length + pos ∨ buffersize < pos + 2 then []
  else tlv.header ++ tlv.value.elim [] (List.range tlv.length).map

/-- `lwm2m_tlv_get_size` -/
def lwm2mTlvGetSize (tlv : Tlv) : ℕ :=
  1 + getLenType tlv.length + (if 255 < tlv.id.toNat then 2 else 1) + tlv.length

/-- The loop of `lwm2m_tlv_read` over the bytes of the length. -/
def readLength (buffer : ℕ → Byte) : ℕ → ℕ → ℕ → ℕ × ℕ
  | 0, lenPos, length => (lenPos, length)
  | lenType + 1, lenPos, length =>
    readLength buffer lenType (lenPos + 1) (length <<< 8 ||| (buffer lenPos).toNat)

/-- `lwm2m_tlv_read`: the TLV, and its size. -/
def lwm2mTlvRead (buffer : ℕ → Byte) : Tlv × ℕ :=
  let lenType := ((buffer 0 >>> 3) &&& 3).toNat
  let lenPos := 1 + if buffer 0 &&& 0x20 ≠ 0 then 2 else 1
  let id := if 2 < lenPos then ((buffer 1).setWidth 16 <<< 8) + (buffer 2).setWidth 16
    else (buffer 1).setWidth 16
  let length := if lenType = 0 then (lenPos, (buffer 0 &&& 7).toNat)
    else readLength buffer lenType lenPos 0
  (⟨(buffer 0 >>> 6) &&& 3, id, length.2, some fun i => buffer (length.1 + i)⟩, length.1 + length.2)

/-! ## Numbers -/

/-- The loop of `lwm2m_tlv_write_int32`, with room for a number of bytes. -/
def int32Loop (v : ℤ) : ℕ → ℤ → List Byte → List Byte
  | 0, _, buf => buf
  | room + 1, value, buf =>
    let b := BitVec.ofInt 8 value
    let lastBit := v = 0 ∧ b &&& 0x80 ≠ 0 ∨ v = -1 ∧ b &&& 0x80 = 0
    if value >>> (8 : ℕ) ≠ v ∨ lastBit then int32Loop v room (value >>> (8 : ℕ)) (b :: buf)
    else b :: buf

/-- The bytes of a number. -/
def int32Bytes (value : BitVec 32) : List Byte :=
  int32Loop (if value.toInt < 0 then -1 else 0) 4 value.toInt []

/-- `lwm2m_tlv_write_int32` -/
def lwm2mTlvWriteInt32 (type : Byte) (id : BitVec 16) (value : BitVec 32) (len : ℕ) : List Byte :=
  let buf := int32Bytes value
  lwm2mTlvWrite ⟨type, id, buf.length, some fun i => buf.getD i 0⟩ len

/-- `lwm2m_tlv_get_int32` -/
def lwm2mTlvGetInt32 (tlv : Tlv) : BitVec 32 :=
  let value : BitVec 32 := ((List.range tlv.length).map tlv.byte).foldl
    (fun value b => value <<< 8 ||| b.setWidth 32) 0
  if tlv.byte 0 &&& 0x80 ≠ 0 then
    (List.range' tlv.length (4 - tlv.length)).foldl
      (fun value i => value ||| (0xff : BitVec 32) <<< (i * 8)) value
  else value

/-! ## Instances -/

/-- The header that `enter_sub` writes, none when it returns zero. -/
def enterSub (resourceId : BitVec 16) (outlen : ℕ) : List Byte :=
  lwm2mTlvWrite ⟨2, resourceId, 8, none⟩ outlen

/-- What the instances of a resource write behind the bytes of a buffer. None when it is left. -/
def writeInstances (size : ℕ) : ℕ → List Tlv → Option (List Byte)
  | _, [] => some []
  | len, tlv :: tlvs =>
    let bytes := lwm2mTlvWrite tlv (size - len)
    if size < len + bytes.length then none
    else (writeInstances size (len + bytes.length) tlvs).map (bytes ++ ·)

/-- `exit_sub`, with the mark that `enter_sub` has stored in one byte. -/
def exitSub (resourceId : BitVec 16) (outMarkPosRi : Byte) (buffer : List Byte) : List Byte :=
  let pos := if 0xff < resourceId.toNat then 3 else 2
  let len : ℤ := buffer.length - outMarkPosRi.toNat
  buffer.set (pos + outMarkPosRi.toNat) (BitVec.ofInt 8 (len - (pos + 1)))

/-! ## The laws -/

/-- The TLV that is read is this one. There are four types. -/
structure Reads (read : Tlv × ℕ) (tlv : Tlv) : Prop where
  type : tlv.type < 4 → read.1.type = tlv.type
  id : read.1.id = tlv.id
  length : read.1.length = tlv.length
  value : ∀ i < tlv.length, read.1.byte i = tlv.byte i
  size : read.2 = lwm2mTlvGetSize tlv

/-- The TLV that is written fits the buffer, and is read. -/
def TlvLaw (tlv : Tlv) (n : ℕ) : Prop :=
  lwm2mTlvWrite tlv n ≠ [] →
    (lwm2mTlvWrite tlv n).length ≤ n ∧ (lwm2mTlvWrite tlv n).length = lwm2mTlvGetSize tlv ∧
      ∀ buffer, Holds buffer 0 (lwm2mTlvWrite tlv n) → Reads (lwm2mTlvRead buffer) tlv

/-- A number is in the range of a number of bytes. -/
def Fits (k : ℕ) (n : ℤ) : Prop := -(2 ^ (8 * k - 1) : ℤ) ≤ n ∧ n < 2 ^ (8 * k - 1)

/-- The number that is written is read, from as few bytes as it needs. -/
def IntLaw (value : BitVec 32) : Prop :=
  ∀ type id len, lwm2mTlvWriteInt32 type id value len ≠ [] → ∀ buffer,
    Holds buffer 0 (lwm2mTlvWriteInt32 type id value len) →
      lwm2mTlvGetInt32 (lwm2mTlvRead buffer).1 = value ∧
        0 < (lwm2mTlvRead buffer).1.length ∧
        ∀ k, 0 < k → k < (lwm2mTlvRead buffer).1.length → ¬ Fits k value.toInt

/-- The bytes of instances with their header have been written behind others. -/
def Written (front : List Byte) (resourceId : BitVec 16) (size : ℕ) (instances : List Tlv)
    (header body : List Byte) : Prop :=
  header = enterSub resourceId (size - front.length) ∧ header ≠ [] ∧
    writeInstances size (front.length + header.length) instances = some body

/-- The length that is read of the TLV around the instances is that of the instances. -/
def ContainerLaw (front : List Byte) (resourceId : BitVec 16) (size : ℕ) (instances : List Tlv) :
    Prop :=
  ∀ header body, Written front resourceId size instances header body →
    (lwm2mTlvRead fun i => (exitSub resourceId (BitVec.ofNat 8 front.length)
      (front ++ header ++ body)).getD (front.length + i) 0).1.length = body.length

variable {tlv : Tlv} {type : Byte} {id : BitVec 16} {buffer : ℕ → Byte} {bs : List Byte} {k low n : ℕ}

/-! ## Reading -/

theorem shiftLeft_or {a b i : ℕ} (h : b < 2 ^ i) : a <<< i ||| b = a * 2 ^ i + b := by
  rw [← Nat.shiftLeft_add_eq_or_of_lt h, Nat.shiftLeft_eq]

theorem length_idBytes : (idBytes id).length = if 255 < id.toNat then 2 else 1 := by
  rw [idBytes]
  split <;> rfl

theorem length_lengthBytes : (lengthBytes n).length = getLenType n := by
  have hle : getLenType n ≤ 3 := by
    unfold getLenType
    split_ifs <;> omega
  rw [lengthBytes]
  generalize getLenType n = k at hle ⊢
  obtain rfl | rfl | rfl | rfl : k = 0 ∨ k = 1 ∨ k = 2 ∨ k = 3 := by omega
  all_goals rfl

theorem bytesValue_append (bs : List Byte) (b : Byte) :
    bytesValue (bs ++ [b]) = bytesValue bs * 256 + b.toNat := by
  rw [bytesValue, foldl_append]
  rfl

/-- The bytes of a length stand for it. -/
theorem bytesValue_lengthBytes (hn : n < 2 ^ 24) (hlong : 8 ≤ n) : bytesValue (lengthBytes n) = n := by
  rw [lengthBytes, getLenType]
  split_ifs <;> simp_all [bytesValue, Nat.shiftRight_eq_div_pow] <;> omega

/-- The loop reads the number that the bytes stand for. -/
theorem readLength_eq {pos length : ℕ} (h : Holds buffer pos bs) :
    readLength buffer bs.length pos length =
      (pos + bs.length, bs.foldl (fun value b => value * 256 + b.toNat) length) := by
  induction bs generalizing pos length with
  | nil => rfl
  | cons b bs ih =>
    obtain ⟨hb, hbs⟩ := holds_cons.mp h
    rw [length_cons, readLength, hb, shiftLeft_or b.isLt, ih hbs, foldl_cons, Nat.add_assoc,
      Nat.add_comm 1]
    rfl

/-- The parts of the first byte. -/
theorem firstByte_parts (hk : k < 4) (hlow : low < 8) :
    (firstByte type id k low >>> 6) &&& 3 = type &&& 3 ∧
      ((firstByte type id k low >>> 3) &&& 3).toNat = k ∧
      (firstByte type id k low &&& 0x20 ≠ 0 ↔ 255 < id.toNat) ∧
      (firstByte type id k low &&& 7).toNat = low := by
  have htype : ∀ t : Byte, t <<< 6 = (t &&& 3) <<< 6 ∧ (t &&& 3).toNat < 4 := by decide
  have hparts : ∀ t < 4, ∀ k < 4, ∀ low < 8, ∀ long : Bool,
      let b : Byte := BitVec.ofNat 8 t <<< 6 ||| (if long then (0x20 : Byte) else 0) |||
        BitVec.ofNat 8 k <<< 3 ||| BitVec.ofNat 8 low
      (b >>> 6) &&& 3 = BitVec.ofNat 8 t ∧ ((b >>> 3) &&& 3).toNat = k ∧
        (b &&& 0x20 ≠ 0 ↔ long = true) ∧ (b &&& 7).toNat = low := by decide
  have h := hparts (type &&& 3).toNat (htype type).2 k hk low hlow (decide (255 < id.toNat))
  simp only [BitVec.ofNat_toNat, BitVec.setWidth_eq, decide_eq_true_eq, ← (htype type).1] at h
  exact h

/-- **A TLV is read from its header**, whatever bytes its length is in. -/
theorem lwm2mTlvRead_eq (hfirst : buffer 0 = firstByte type id bs.length low)
    (hid : Holds buffer 1 (idBytes id)) (hlength : Holds buffer (1 + (idBytes id).length) bs)
    (hbs : bs.length < 4) (hlow : low < 8) :
    let length := if bs.length = 0 then low else bytesValue bs
    let pos := 1 + (idBytes id).length + bs.length
    lwm2mTlvRead buffer =
      (⟨type &&& 3, id, length, some fun i => buffer (pos + i)⟩, pos + length) := by
  obtain ⟨htype, hlenType, hlong, hlow'⟩ := @firstByte_parts type id bs.length low hbs hlow
  have hpos : (1 + if buffer 0 &&& 0x20 ≠ 0 then 2 else 1) = 1 + (idBytes id).length := by
    rw [hfirst, length_idBytes]
    simp only [hlong]
  have hidValue : (if 2 < 1 + (idBytes id).length then
      ((buffer 1).setWidth 16 <<< 8) + (buffer 2).setWidth 16 else (buffer 1).setWidth 16) = id := by
    rw [length_idBytes]
    rw [idBytes] at hid
    by_cases h : 255 < id.toNat
    · rw [if_pos h] at hid ⊢
      simp only [cons_append, nil_append, holds_cons] at hid
      rw [hid.1, hid.2.1, if_pos (by decide)]
      apply BitVec.eq_of_toNat_eq
      simp [Nat.shiftLeft_eq, Nat.shiftRight_eq_div_pow]
      omega
    · rw [if_neg h] at hid ⊢
      simp only [nil_append, holds_cons] at hid
      rw [hid.1, if_neg (by decide)]
      apply BitVec.eq_of_toNat_eq
      simp
      omega
  intro length pos
  rw [lwm2mTlvRead]
  simp only [hpos, hidValue]
  rw [hfirst, htype, hlenType, hlow']
  by_cases hzero : bs.length = 0
  · simp [length, pos, hzero]
  · rw [if_neg hzero, readLength_eq hlength]
    simp [length, pos, hzero, bytesValue]

/-! ## What is written is read -/

theorem getLenType_lt : getLenType n < 4 := by
  unfold getLenType
  split_ifs <;> omega

theorem getLenType_eq_zero_iff : getLenType n = 0 ↔ n < 8 := by
  by_cases h : n < 8
  · simp [getLenType, h]
  · rw [getLenType, if_neg h]
    split_ifs <;> simp [h]

theorem length_header : tlv.header.length + tlv.length = lwm2mTlvGetSize tlv := by
  rw [Tlv.header, length_cons, length_append, length_idBytes, length_lengthBytes,
    lwm2mTlvGetSize]
  omega

theorem lwm2mTlvWrite_of_ne_nil (h : lwm2mTlvWrite tlv n ≠ []) :
    lwm2mTlvWrite tlv n = tlv.header ++ tlv.value.elim [] (List.range tlv.length).map := by
  rw [lwm2mTlvWrite] at h ⊢
  split at h
  · exact absurd rfl h
  · rename_i hroom
    rw [if_neg hroom]

/-- A header that is written is read. -/
theorem lwm2mTlvRead_header (hlen : tlv.length < 2 ^ 24) (h : Holds buffer 0 tlv.header) :
    lwm2mTlvRead buffer = (⟨tlv.type &&& 3, tlv.id, tlv.length,
      some fun i => buffer (tlv.header.length + i)⟩, lwm2mTlvGetSize tlv) := by
  have hlenType := @length_lengthBytes tlv.length
  rw [Tlv.header, ← hlenType, holds_cons, holds_append, Nat.zero_add] at h
  obtain ⟨hfirst, hid, hlength⟩ := h
  have hread := lwm2mTlvRead_eq hfirst hid hlength (by rw [hlenType]; exact getLenType_lt) (by
    split
    · rename_i hzero
      exact getLenType_eq_zero_iff.mp (hlenType ▸ hzero)
    · decide)
  have hvalue : (if (lengthBytes tlv.length).length = 0 then
      if (lengthBytes tlv.length).length = 0 then tlv.length else 0
      else bytesValue (lengthBytes tlv.length)) = tlv.length := by
    rw [hlenType]
    by_cases hshort : tlv.length < 8
    · rw [if_pos (getLenType_eq_zero_iff.mpr hshort), if_pos (getLenType_eq_zero_iff.mpr hshort)]
    · rw [if_neg (mt getLenType_eq_zero_iff.mp hshort), bytesValue_lengthBytes hlen (by omega)]
  have hpos : 1 + (idBytes tlv.id).length + (lengthBytes tlv.length).length = tlv.header.length := by
    rw [Tlv.header, length_cons, length_append]
    omega
  simp only [hvalue, hpos, length_header] at hread
  exact hread

/-- **A TLV that is written is read**, with its value. -/
theorem lwm2mTlvRead_write (hlen : tlv.length < 2 ^ 24) (hvalue : tlv.value.isSome)
    (hne : lwm2mTlvWrite tlv n ≠ []) (h : Holds buffer 0 (lwm2mTlvWrite tlv n)) :
    Reads (lwm2mTlvRead buffer) tlv := by
  obtain ⟨value, hvalue⟩ := Option.isSome_iff_exists.mp hvalue
  rw [lwm2mTlvWrite_of_ne_nil hne, hvalue, holds_append, Nat.zero_add] at h
  rw [lwm2mTlvRead_header hlen h.1]
  have hfour : ∀ t : Byte, t < 4 → t &&& 3 = t := by decide
  refine ⟨hfour tlv.type, rfl, rfl, fun i hi => ?_, rfl⟩
  have hbyte := h.2 i (by simpa using hi)
  simpa [Tlv.byte, hvalue] using hbyte

/-- There is room for the TLV, or it is refused. -/
def Room (tlv : Tlv) (n : ℕ) : Prop :=
  lwm2mTlvGetSize tlv ≤ n ∨ n < tlv.length + (1 + getLenType tlv.length) ∨ n < 1 + getLenType tlv.length + 2

theorem tlvLaw_iff (hlen : tlv.length < 2 ^ 24) (hvalue : tlv.value.isSome) :
    TlvLaw tlv n ↔ Room tlv n := by
  have hbytes (hne : lwm2mTlvWrite tlv n ≠ []) :
      (lwm2mTlvWrite tlv n).length = lwm2mTlvGetSize tlv := by
    obtain ⟨value, hvalue⟩ := Option.isSome_iff_exists.mp hvalue
    rw [lwm2mTlvWrite_of_ne_nil hne, hvalue, ← length_header]
    simp
  constructor
  · intro hlaw
    by_cases hroom : n < tlv.length + (1 + getLenType tlv.length) ∨ n < 1 + getLenType tlv.length + 2
    · exact .inr hroom
    · have hne : lwm2mTlvWrite tlv n ≠ [] := by
        rw [lwm2mTlvWrite, if_neg (by simpa [hvalue] using hroom)]
        exact append_ne_nil_of_left_ne_nil (cons_ne_nil _ _) _
      exact .inl (hbytes hne ▸ (hlaw hne).1)
  · intro hroom hne
    have hfits : lwm2mTlvGetSize tlv ≤ n := by
      refine hroom.resolve_right fun hroom => hne ?_
      rw [lwm2mTlvWrite, if_pos (by simpa [hvalue] using hroom)]
    exact ⟨(hbytes hne).trans_le hfits, hbytes hne, fun buffer => lwm2mTlvRead_write hlen hvalue hne⟩

/-! ## Numbers -/

/-- The number that bytes stand for in two's complement. -/
def signedValue (bs : List Byte) : ℤ :=
  if 128 ≤ (bs.headD 0).toNat then bytesValue bs - 256 ^ bs.length else bytesValue bs

theorem signedValue_append (hbs : bs ≠ []) (b : Byte) :
    signedValue (bs ++ [b]) = signedValue bs * 256 + b.toNat := by
  obtain ⟨c, bs, rfl⟩ := exists_cons_of_ne_nil hbs
  rw [signedValue, signedValue, bytesValue_append]
  simp only [cons_append, headD_cons, length_append, length_cons, pow_succ]
  split
  · simp
    ring
  · simp

theorem fits_one {m : ℤ} : Fits 1 m ↔ -128 ≤ m ∧ m < 128 := by
  norm_num [Fits]

theorem fits_succ {m : ℤ} (hk : 0 < k) : Fits (k + 1) m ↔ Fits k (m / 256) := by
  have hpow : (2 : ℤ) ^ (8 * (k + 1) - 1) = 256 * 2 ^ (8 * k - 1) := by
    rw [show 8 * (k + 1) - 1 = 8 * k - 1 + 8 by omega, pow_add]
    ring
  rw [Fits, Fits, hpow]
  omega

theorem and_0x80 : ∀ b : Byte, b &&& 0x80 ≠ 0 ↔ 128 ≤ b.toNat := by decide

/-- **The loop writes a number** in as few bytes as it needs. -/
theorem int32Loop_spec {v m : ℤ} {room : ℕ} {buf : List Byte} (hv : v = if m < 0 then -1 else 0)
    (hroom : 0 < room) (hfits : Fits room m) :
    ∃ bs, int32Loop v room m buf = bs ++ buf ∧ bs ≠ [] ∧ bs.length ≤ room ∧ signedValue bs = m ∧
      ∀ k, 0 < k → k < bs.length → ¬ Fits k m := by
  induction room generalizing m buf with
  | zero => exact absurd hroom (Nat.lt_irrefl 0)
  | succ room ih =>
    obtain ⟨b, hb⟩ : ∃ b, b = BitVec.ofInt 8 m := ⟨_, rfl⟩
    have hbyte : (b.toNat : ℤ) = m % 256 := by
      rw [hb, BitVec.toNat_ofInt]
      omega
    have hshift : m >>> (8 : ℕ) = m / 256 := Int.shiftRight_eq_div_pow m 8
    have hbit : b &&& 0x80 = 0 ↔ ¬ 128 ≤ b.toNat := by rw [← and_0x80, not_not]
    rw [int32Loop, hshift, ← hb]
    simp only [ne_eq, hbit, not_not]
    by_cases hmore : ¬ m / 256 = v ∨ v = 0 ∧ 128 ≤ b.toNat ∨ v = -1 ∧ ¬ 128 ≤ b.toNat
    · rw [if_pos hmore]
      have hone : ¬ Fits 1 m := by
        rw [fits_one]
        split at hv <;> omega
      have hroom' : 0 < room := Nat.pos_of_ne_zero fun hzero => hone (by rwa [hzero] at hfits)
      obtain ⟨bs, hbs, hne, hle, hvalue, hshort⟩ := @ih (m / 256) (b :: buf)
        (by rw [hv]; split <;> split <;> omega) hroom' ((fits_succ hroom').mp hfits)
      refine ⟨bs ++ [b], by simpa using hbs, by simp, by simpa using hle, ?_, fun k hk hlt => ?_⟩
      · rw [signedValue_append hne, hvalue, hbyte]
        omega
      · obtain ⟨j, rfl⟩ := Nat.exists_eq_succ_of_ne_zero hk.ne'
        rcases Nat.eq_zero_or_pos j with rfl | hj
        · exact hone
        · rw [fits_succ hj]
          rw [length_append, length_singleton] at hlt
          exact hshort j hj (by omega)
    · rw [if_neg hmore]
      refine ⟨[b], rfl, cons_ne_nil _ _, by simp, ?_, fun k hk hlt => ?_⟩
      · have hbv : bytesValue [b] = b.toNat := by simp [bytesValue]
        rw [signedValue, headD_cons, hbv]
        simp only [length_singleton, pow_one]
        split at hv <;> split <;> omega
      · rw [length_singleton] at hlt
        omega

theorem bytesValue_lt (bs : List Byte) : bytesValue bs < 256 ^ bs.length := by
  induction bs using List.reverseRecOn with
  | nil => decide
  | append_singleton bs b ih =>
    rw [bytesValue_append, length_append, length_singleton, pow_succ]
    have := b.isLt
    omega

/-- The loop of `lwm2m_tlv_get_int32` sets all the bits above what was read. -/
theorem foldl_sign {i m : ℕ} (hi : i + m = 4) (x : BitVec 32) (hx : x.toNat < 256 ^ i) :
    ((List.range' i m).foldl (fun value i => value ||| (0xff : BitVec 32) <<< (i * 8)) x).toNat +
      256 ^ i = x.toNat + 2 ^ 32 := by
  induction m generalizing i x with
  | zero =>
    rw [show i = 4 by omega]
    rfl
  | succ m ih =>
    have hle : 256 ^ (i + 1) ≤ 2 ^ 32 := Nat.pow_le_pow_right (n := 256) (by decide) (show i + 1 ≤ 4 by omega)
    have hpow : 2 ^ (i * 8) = 256 ^ i := by rw [Nat.mul_comm, Nat.pow_mul]
    rw [pow_succ] at hle
    have hor : (x ||| (0xff : BitVec 32) <<< (i * 8)).toNat = 255 * 256 ^ i + x.toNat := by
      rw [BitVec.toNat_or, BitVec.toNat_shiftLeft, Nat.mod_eq_of_lt, Nat.or_comm, shiftLeft_or, hpow]
      · rfl
      · rwa [hpow]
      · rw [Nat.shiftLeft_eq, hpow]
        show 255 * 256 ^ i < _
        omega
    have hnext := ih (i := i + 1) (by omega) (x ||| (0xff : BitVec 32) <<< (i * 8)) (by
      rw [hor, pow_succ]
      omega)
    rw [hor, pow_succ] at hnext
    rw [List.range'_succ, foldl_cons]
    omega

/-- **The number is that of its bytes** in two's complement. -/
theorem lwm2mTlvGetInt32_eq (hbs : bs ≠ []) (hle : bs.length ≤ 4) (hlength : tlv.length = bs.length)
    (hbyte : ∀ i < bs.length, tlv.byte i = bs.getD i 0) :
    lwm2mTlvGetInt32 tlv = BitVec.ofInt 32 (signedValue bs) := by
  have hmap : (List.range tlv.length).map tlv.byte = bs := by
    refine ext_getElem (by simpa using hlength) fun i hi hi' => ?_
    simpa [hi'] using hbyte i hi'
  have hhead : tlv.byte 0 = bs.headD 0 := by
    rw [hbyte 0 (length_pos_of_ne_nil hbs)]
    cases bs <;> rfl
  have hlt := bytesValue_lt bs
  have hpow : 256 ^ bs.length ≤ 2 ^ 32 := Nat.pow_le_pow_right (n := 256) (by decide) hle
  have hread : (bs.foldl (fun (value : BitVec 32) b => value <<< 8 ||| b.setWidth 32) 0).toNat =
      bytesValue bs := (toNat_coapParseIntOption bs).trans (Nat.mod_eq_of_lt (by omega))
  have hcast : ((256 ^ bs.length : ℕ) : ℤ) = 256 ^ bs.length := by push_cast; rfl
  rw [lwm2mTlvGetInt32, hmap, hhead, hlength]
  apply BitVec.eq_of_toNat_eq
  rw [BitVec.toNat_ofInt, signedValue, ← hcast]
  by_cases hsign : 128 ≤ (bs.headD 0).toNat
  · have hset := foldl_sign (show bs.length + (4 - bs.length) = 4 by omega) _ (hread.trans_lt hlt)
    rw [hread] at hset
    rw [if_pos hsign, if_pos ((and_0x80 _).mpr hsign)]
    refine (Nat.eq_sub_of_add_eq hset).trans ?_
    omega
  · rw [if_neg hsign, if_neg (mt (and_0x80 _).mp hsign), hread]
    omega

theorem fits_toInt (value : BitVec 32) : Fits 4 value.toInt := by
  have hlow := value.le_toInt
  have hhigh := value.toInt_lt
  norm_num [Fits] at hlow hhigh ⊢
  exact ⟨hlow, hhigh⟩

theorem intLaw (value : BitVec 32) : IntLaw value := by
  intro type id len hne buffer h
  obtain ⟨bs, hbs, hnil, hle, hvalue, hshort⟩ :=
    @int32Loop_spec (if value.toInt < 0 then -1 else 0) value.toInt 4 [] rfl (by decide) (fits_toInt value)
  have hbytes : int32Bytes value = bs := by
    rw [int32Bytes, hbs, append_nil]
  simp only [lwm2mTlvWriteInt32, hbytes] at hne h
  have hread := lwm2mTlvRead_write (by show bs.length < _; omega) rfl hne h
  rw [lwm2mTlvGetInt32_eq hnil hle hread.length hread.value, hvalue, BitVec.ofInt_toInt, hread.length]
  exact ⟨rfl, length_pos_of_ne_nil hnil, hshort⟩

/-! ## Instances -/

/-- The instances have less than 256 bytes, and start in the first 256; or they have the eight bytes that
`enter_sub` writes. -/
def ContainerFits (front body : List Byte) : Prop :=
  (front.length < 256 ∧ body.length < 256) ∨ (256 ≤ front.length ∧ body.length = 8)

/-- The header around instances. -/
theorem enterSub_eq {id : BitVec 16} (h : enterSub id n ≠ []) :
    enterSub id n = firstByte 2 id 1 0 :: (idBytes id ++ [8]) := by
  rw [enterSub] at h ⊢
  rw [lwm2mTlvWrite_of_ne_nil h, Option.elim_none, append_nil]
  rfl

/-- **The length is put into the header**, or, behind the first 256 bytes, in front of it. -/
theorem exitSub_eq (front body : List Byte) (id : BitVec 16) :
    ∃ front' x, exitSub id (BitVec.ofNat 8 front.length)
        (front ++ (firstByte 2 id 1 0 :: (idBytes id ++ [8])) ++ body) =
          front' ++ ((firstByte 2 id 1 0 :: (idBytes id ++ [x])) ++ body) ∧
      front'.length = front.length ∧
      (front.length < 256 → x = BitVec.ofNat 8 body.length) ∧ (256 ≤ front.length → x = 8) := by
  obtain ⟨first, hfirst⟩ : ∃ first, first = firstByte 2 id 1 0 :: idBytes id := ⟨_, rfl⟩
  have hpos : (if 0xff < id.toNat then 3 else 2) = first.length := by
    rw [hfirst, length_cons, length_idBytes]
    split <;> rfl
  have hcons (x : Byte) : firstByte 2 id 1 0 :: (idBytes id ++ [x]) = first ++ [x] := by
    rw [hfirst, cons_append]
  have hmark : (BitVec.ofNat 8 front.length).toNat = front.length % 256 := BitVec.toNat_ofNat ..
  simp only [hcons, exitSub, hpos, hmark]
  by_cases hshort : front.length < 256
  · refine ⟨front, BitVec.ofNat 8 body.length, ?_, rfl, fun _ => rfl, fun h => absurd h (by omega)⟩
    have hbyte : BitVec.ofInt 8 (((front ++ (first ++ [8]) ++ body).length : ℤ) - front.length -
        (first.length + 1)) = BitVec.ofNat 8 body.length := by
      have hlen : ((front ++ (first ++ [8]) ++ body).length : ℤ) - front.length - (first.length + 1) =
          (body.length : ℕ) := by
        simp only [length_append, length_singleton]
        omega
      rw [hlen]
      exact BitVec.ofInt_natCast 8 _
    rw [Nat.mod_eq_of_lt hshort, hbyte, append_assoc,
      set_append_right _ _ (Nat.le_add_left ..), Nat.add_sub_cancel, append_assoc,
      set_append_right _ _ (Nat.le_refl _), Nat.sub_self, append_assoc]
    rfl
  · have hle : first.length ≤ 3 := by
      rw [← hpos]
      split <;> omega
    generalize BitVec.ofInt 8 _ = length
    refine ⟨front.set (first.length + front.length % 256) length, 8, ?_, length_set,
      fun h => absurd h hshort, fun _ => rfl⟩
    rw [append_assoc, set_append_left _ _ (by omega)]

theorem containerLaw_iff {front : List Byte} {id : BitVec 16} {size : ℕ} {instances : List Tlv} :
    ContainerLaw front id size instances ↔
      ∀ header body, Written front id size instances header body → ContainerFits front body := by
  refine forall_congr' fun header => forall_congr' fun body => imp_congr_right fun hwritten => ?_
  obtain ⟨hheader, hne, -⟩ := hwritten
  obtain ⟨front', x, hexit, hlength, hnear, hfar⟩ := exitSub_eq front body id
  rw [hheader] at hne ⊢
  rw [enterSub_eq hne, hexit]
  obtain ⟨buffer, hbuffer⟩ : ∃ buffer : ℕ → Byte, buffer = fun i => (front' ++
      ((firstByte 2 id 1 0 :: (idBytes id ++ [x])) ++ body)).getD (front.length + i) 0 := ⟨_, rfl⟩
  have hholds : Holds buffer 0 (firstByte 2 id 1 0 :: (idBytes id ++ [x])) := by
    intro i hi
    rw [hbuffer, Nat.zero_add, ← hlength]
    simp only
    rw [getD_append_right _ _ _ _ (Nat.le_add_right ..), Nat.add_sub_cancel_left,
      getD_append _ _ _ _ hi, getD_eq_getElem _ _ hi]
  rw [holds_cons, holds_append, Nat.zero_add] at hholds
  have hread := @lwm2mTlvRead_eq 2 id buffer [x] 0 hholds.1 hholds.2.1 hholds.2.2
    (by rw [length_singleton]; decide) (by decide)
  have hx : bytesValue [x] = x.toNat := by simp [bytesValue]
  rw [← hbuffer, hread, ContainerFits]
  simp only [length_singleton, Nat.one_ne_zero, if_false, hx]
  by_cases hshort : front.length < 256
  · rw [hnear hshort, BitVec.toNat_ofNat]
    omega
  · rw [hfar (by omega)]
    show 8 = body.length ↔ _
    omega

/-- **What is written is read if and only if** there is room for the identifier, or the TLV is refused,
and the length of the instances is written where it belongs, in one byte. -/
theorem tlvLaws_iff {number : BitVec 32} {front : List Byte} {id : BitVec 16} {size : ℕ}
    {instances : List Tlv} (hlen : tlv.length < 2 ^ 24) (hvalue : tlv.value.isSome) :
    TlvLaw tlv n ∧ IntLaw number ∧ ContainerLaw front id size instances ↔
      Room tlv n ∧ ∀ header body, Written front id size instances header body →
        ContainerFits front body := by
  rw [tlvLaw_iff hlen hvalue, containerLaw_iff]
  exact ⟨fun h => ⟨h.1, h.2.2⟩, fun h => ⟨h.1, intLaw number, h.2⟩⟩

/-- A value of two bytes in a buffer of five, and an instance of eight bytes. -/
theorem tlvLaws_two : TlvLaw ⟨3, 1, 2, some 0⟩ 5 ∧ IntLaw 300 ∧
    ContainerLaw [] 1 64 [⟨1, 0, 6, some 0⟩] :=
  (tlvLaws_iff (by decide) rfl).mpr ⟨.inl (by decide), fun header body h => by
    obtain ⟨hheader, -, hbody⟩ := h
    rw [hheader] at hbody
    obtain rfl := Option.some.inj ((show _ = some _ from rfl).symm.trans hbody)
    exact .inl (by decide)⟩

/-- A value of two bytes is written behind the end of a buffer of three. -/
theorem identifier_not_counted : ¬ TlvLaw ⟨3, 1, 2, some 0⟩ 3 :=
  fun hlaw => absurd ((tlvLaw_iff (by decide) rfl).mp hlaw) (by unfold Room; decide)

end Asap.Lwm2m
