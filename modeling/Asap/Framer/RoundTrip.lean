import Asap.Framer.Frame802154

/-!
# Headers are parsed as they are created

The parts of a header are read one after the other as they were written, so a header is
parsed as it was created as long as writer and reader agree on what is present. They do
not in two cases. A 2015 header without addresses may have a destination PAN identifier,
which is written, and looked for only together with an address. And the flag that
suppresses the frame counter is read together with the bit next to it, that for the size
of the counter, so it is not a flag any more when that bit is set.

## Main definitions

* `mhrParsed` — a description after the fields of a header up to its addresses.
* `round_trip_iff` — when a header is parsed as it was created.
-/

namespace Asap.Framer

open Asap.Lib List

variable {cfg : FramerConfig} {p pf : Frame802154} {mem : ℕ → Byte} {pos len : ℕ}

/-! ## Up to the addresses -/

/-- The description after the part up to the addresses, when it is read as it was written. -/
def mhrParsed (cfg : FramerConfig) (p pf : Frame802154) : Frame802154 :=
  { pf with
    fcf := p.fcf
    ostPigg1 := if cfg.withOst then p.ostPigg1 else pf.ostPigg1
    ostPigg2 := if cfg.withOst ∧ cfg.ostOnDemandProvision then p.ostPigg2 else pf.ostPigg2
    seq := if p.fcf.sequenceNumberSuppression = 0 then p.seq else pf.seq
    destPid := p.destPid
    destAddr := p.destAddr
    srcPid := p.srcPid
    srcAddr := p.srcAddr }

theorem seqnoLen_eq (h : InRange p) : (fieldLen cfg p).seqnoLen =
    if p.fcf.sequenceNumberSuppression = 0 then 1 else 0 := by
  have hbit : ∀ b : Byte, b < 2 → b &&& 1#8 = b := by decide +kernel
  simp only [fieldLen, hbit _ h.sequenceNumberSuppression]

/-- The sequence number is read as it was written. -/
theorem parseSeq_spec (h : InRange p) (hfcf : pf.fcf = p.fcf)
    (hmem : Holds mem pos (if (fieldLen cfg p).seqnoLen = 1 then [p.seq] else [])) :
    parseSeq mem pos pf = (pos + (fieldLen cfg p).seqnoLen,
      { pf with seq := if p.fcf.sequenceNumberSuppression = 0 then p.seq else pf.seq }) := by
  rw [seqnoLen_eq h] at hmem ⊢
  simp only [parseSeq, hfcf]
  by_cases hsup : p.fcf.sequenceNumberSuppression = 0
  · simp only [hsup, if_true, holds_cons] at hmem ⊢
    rw [hmem.1]
  · rw [if_neg hsup, if_neg hsup, if_neg hsup, Nat.add_zero, ← hfcf]

theorem length_createOst (cfg : FramerConfig) (p : Frame802154) :
    (createOst cfg p).length = (fieldLen cfg p).ostPiggLen := by
  simp only [createOst, fieldLen]
  split_ifs <;> rfl

theorem length_createSeq (h : InRange p) :
    (if (fieldLen cfg p).seqnoLen = 1 then [p.seq] else []).length = (fieldLen cfg p).seqnoLen := by
  rw [seqnoLen_eq h]
  split_ifs <;> simp_all

/-- Parsing goes through the parts in order. -/
theorem parse_eq {q q₁ q₂ q₃ q₄ : Frame802154} {p₁ p₂ p₃ p₄ : ℕ} (hlen : 2 ≤ len)
    (hfcf : { pf with fcf := frame802154ParseFcf (mem 0) (mem 1) } = q)
    (host : parseOst cfg mem 2 q = (p₁, q₁)) (hseq : parseSeq mem p₁ q₁ = (p₂, q₂))
    (hdest : parseDest mem p₂ q₂ = (p₃, q₃)) (hsrc : parseSrc mem p₃ q₃ = (p₄, q₄)) :
    frame802154Parse cfg mem len pf =
      let (c, q) := parseAux cfg mem p₄ q₄
      (if len < c then 0 else c, { q with payload := c, payloadLen := (len : ℤ) - c }) := by
  have hshort : ¬len < 2 := by omega
  simp only [frame802154Parse, if_neg hshort, hfcf, host, hseq, hdest, hsrc]

/-- What is left of parsing when the part up to the addresses is read as it was written. -/
theorem parse_createMhr (h : Consistent p) (hpanid : ¬PanidWithoutAddr p.fcf) (hlen : 2 ≤ len)
    (hmem : Holds mem 0 (createMhr cfg p)) :
    frame802154Parse cfg mem len pf =
      let (c, q) := parseAux cfg mem (createMhr cfg p).length (mhrParsed cfg p pf)
      (if len < c then 0 else c, { q with payload := c, payloadLen := (len : ℤ) - c }) := by
  have htwo : (frame802154CreateFcf p.fcf).length = 2 := rfl
  simp only [createMhr, append_assoc, holds_append, htwo, length_createOst,
    length_createSeq h.inRange, length_createAddr, length_createPid _ (destPidLen_cases cfg p),
    length_createPid _ (srcPidLen_cases cfg p), Nat.zero_add] at hmem
  obtain ⟨hfcf, host, hseq, hdestPid, hdestAddr, hsrcPid, hsrcAddr⟩ := hmem
  have hdest : Holds mem (2 + (fieldLen cfg p).ostPiggLen + (fieldLen cfg p).seqnoLen)
      (createPid (fieldLen cfg p).destPidLen p.destPid ++
        createAddr (fieldLen cfg p).destAddrLen p.destAddr) := by
    apply holds_append.mpr
    rw [length_createPid _ (destPidLen_cases cfg p)]
    exact ⟨hdestPid, hdestAddr⟩
  have hsrc : Holds mem (2 + (fieldLen cfg p).ostPiggLen + (fieldLen cfg p).seqnoLen +
        (fieldLen cfg p).destPidLen + (fieldLen cfg p).destAddrLen)
      (createPid (fieldLen cfg p).srcPidLen p.srcPid ++
        createAddr (fieldLen cfg p).srcAddrLen p.srcAddr) := by
    apply holds_append.mpr
    rw [length_createPid _ (srcPidLen_cases cfg p)]
    exact ⟨hsrcPid, hsrcAddr⟩
  have host : parseOst cfg mem 2 { pf with fcf := p.fcf } = _ := parseOst_createOst host
  rw [length_createOst] at host
  rw [length_createMhr]
  apply parse_eq hlen (q := { pf with fcf := p.fcf })
  · rw [parseFcf_createFcf h.inRange hfcf]
  · exact host
  · exact parseSeq_spec h.inRange rfl hseq
  · exact parseDest_spec h hpanid rfl hdest
  · exact parseSrc_spec h rfl rfl hsrc

/-! ## The security header -/

/-- Whether a frame has a security header, with a long frame counter. -/
def LongFrameCounter (cfg : FramerConfig) (p : Frame802154) : Prop :=
  cfg.usesAuxHeader ∧ p.fcf.securityEnabled = 1 ∧ p.auxHdr.securityControl.frameCounterSize = 1

instance (cfg : FramerConfig) (p : Frame802154) : Decidable (LongFrameCounter cfg p) :=
  inferInstanceAs (Decidable (_ ∧ _))

/-- The control byte has the flags for the frame counter in its three high bits. -/
theorem createScf_bits {scf : Frame802154Scf} (hlevel : scf.securityLevel < 8)
    (hmode : scf.keyIdMode < 4) (hsup : scf.frameCounterSuppression < 2)
    (hsize : scf.frameCounterSize < 2) :
    let b := createScf cfg scf
    b &&& 7#8 = scf.securityLevel ∧ (cfg.usesExplicitKeys → (b >>> 3) &&& 3#8 = scf.keyIdMode) ∧
      b >>> 5 = scf.frameCounterSuppression + 2 * scf.frameCounterSize ∧
      b >>> 6 = scf.frameCounterSize := by
  obtain ⟨l, hl⟩ :=
    (by decide +kernel : ∀ b : Byte, b < 8 → ∃ c : BitVec 3, b = c.setWidth 8) _ hlevel
  obtain ⟨k, hk⟩ :=
    (by decide +kernel : ∀ b : Byte, b < 4 → ∃ c : BitVec 2, b = c.setWidth 8) _ hmode
  have hbit : ∀ b : Byte, b < 2 → ∃ c : BitVec 1, b = c.setWidth 8 := by decide +kernel
  obtain ⟨s, hs⟩ := hbit _ hsup
  obtain ⟨z, hz⟩ := hbit _ hsize
  have hbits : ∀ (l : BitVec 3) (k : BitVec 2) (s z : BitVec 1) (explicitKeys : Bool),
      let b : Byte := l.setWidth 8 ||| (if explicitKeys then k.setWidth 8 <<< 3 else 0) |||
        s.setWidth 8 <<< 5 ||| z.setWidth 8 <<< 6
      b &&& 7#8 = l.setWidth 8 ∧ (explicitKeys → (b >>> 3) &&& 3#8 = k.setWidth 8) ∧
        b >>> 5 = s.setWidth 8 + 2 * z.setWidth 8 ∧ b >>> 6 = z.setWidth 8 := by decide +kernel
  have e := hbits l k s z cfg.usesExplicitKeys
  simpa only [createScf, hl, hk, hs, hz] using e

/-- The control field is read as it was written when the frame counter is not long. -/
theorem parseScf_createScf {scf : Frame802154Scf} (hlevel : scf.securityLevel < 8)
    (hmode : scf.keyIdMode < 4) (hsup : scf.frameCounterSuppression < 2)
    (hsize : scf.frameCounterSize = 0) (scf' : Frame802154Scf) :
    parseScf cfg (createScf cfg scf) scf' =
      { scf with keyIdMode := if cfg.usesExplicitKeys then scf.keyIdMode else scf'.keyIdMode } := by
  obtain ⟨hl, hk, hs, hz⟩ := @createScf_bits cfg _ hlevel hmode hsup (by rw [hsize]; decide)
  rw [hsize] at hs hz
  simp only [parseScf, hl, hs, hz, hsize]
  cases hkeys : cfg.usesExplicitKeys with
  | false => simp
  | true => simp [hk hkeys]

/-- The bytes of a security header without a long frame counter. -/
def auxBytes (cfg : FramerConfig) (p : Frame802154) : List Byte :=
  createScf cfg p.auxHdr.securityControl ::
    (if p.auxHdr.securityControl.frameCounterSuppression = 0 then List.ofFn p.auxHdr.frameCounter
      else []) ++ createKeyId cfg p.auxHdr

theorem hasAux_iff (h : InRange p) : (fieldLen cfg p).auxSecLen ≠ 0 ↔
    cfg.usesAuxHeader ∧ p.fcf.securityEnabled = 1 := by
  have hbit : ∀ b : Byte, b < 2 → (b &&& 1#8 ≠ 0 ↔ b = 1) := by decide +kernel
  simp only [fieldLen, hbit _ h.securityEnabled]
  split_ifs with haux
  · simp [auxSecLen_pos, haux]
  · exact ⟨fun hne => absurd rfl hne, fun hsec => absurd hsec haux⟩

theorem createAux_eq (h : InRange p) (hsize : ¬LongFrameCounter cfg p)
    (hsec : cfg.usesAuxHeader ∧ p.fcf.securityEnabled = 1) :
    createAux cfg p = (auxBytes cfg p).map some := by
  have hshort : p.auxHdr.securityControl.frameCounterSize ≠ 1 := fun hlong =>
    hsize ⟨hsec.1, hsec.2, hlong⟩
  rw [createAux, if_pos ((hasAux_iff h).mpr hsec)]
  simp only [auxBytes, createCounter, hshort, if_false, append_nil]
  split_ifs <;> simp

/-- Reading the security header changes nothing else. -/
theorem parseAux_snd (cfg : FramerConfig) (mem : ℕ → Byte) (pos : ℕ) (pf : Frame802154) :
    (parseAux cfg mem pos pf).2 =
      { pf with auxHdr := (parseAux cfg mem pos pf).2.auxHdr } := by
  simp only [parseAux]
  split_ifs <;> rfl

/-- The identifier of the key is held where it was written. -/
theorem createKeyId_spec (h : InRange p)
    (hkeys : cfg.usesExplicitKeys ∧ p.auxHdr.securityControl.keyIdMode ≠ 0)
    (hmem : Holds mem pos (createKeyId cfg p.auxHdr)) :
    mem (pos + (p.auxHdr.securityControl.keyIdMode.toNat - 1) * 4) = p.auxHdr.keyIndex ∧
      ∀ i : Fin 8, (i : ℕ) < (p.auxHdr.securityControl.keyIdMode.toNat - 1) * 4 →
        mem (pos + i) = p.auxHdr.keySource i := by
  have hc : (p.auxHdr.securityControl.keyIdMode.toNat - 1) * 4 ≤ 8 :=
    (by decide +kernel : ∀ m : Byte, m < 4 → (m.toNat - 1) * 4 ≤ 8) _ h.keyIdMode
  simp only [createKeyId, if_pos hkeys, holds_append, length_take, length_ofFn,
    holds_cons] at hmem
  rw [Nat.min_eq_left hc] at hmem
  refine ⟨hmem.2.1, ?_⟩
  intro i hi
  have hsource := hmem.1 i (by simpa using hi)
  rw [hsource, getElem_take, List.getElem_ofFn]

/-- What is read of a security header. -/
theorem parseAux_fields (cfg : FramerConfig) (mem : ℕ → Byte) (pos : ℕ)
    (hsec : cfg.usesAuxHeader ∧ pf.fcf.securityEnabled ≠ 0) :
    let scf := parseScf cfg (mem pos) pf.auxHdr.securityControl
    let counterLen :=
      if scf.frameCounterSuppression = 0 then if scf.frameCounterSize = 1 then 5 else 4 else 0
    let c := (scf.keyIdMode.toNat - 1) * 4
    let aux := (parseAux cfg mem pos pf).2.auxHdr
    aux.securityControl = scf ∧
      (scf.frameCounterSuppression = 0 → ∀ i : Fin 4, aux.frameCounter i = mem (pos + 1 + i)) ∧
      (cfg.usesExplicitKeys ∧ scf.keyIdMode ≠ 0 →
        aux.keyIndex = mem (pos + 1 + counterLen + c) ∧
          ∀ i : Fin 8, (i : ℕ) < c → aux.keySource i = mem (pos + 1 + counterLen + i)) := by
  simp only [parseAux, if_pos hsec]
  generalize parseScf cfg (mem pos) pf.auxHdr.securityControl = scf
  by_cases hkeys : cfg.usesExplicitKeys = true ∧ scf.keyIdMode ≠ 0
  · by_cases hsup : scf.frameCounterSuppression = 0 <;> by_cases hsize : scf.frameCounterSize = 1 <;>
      simp only [hsup, hsize, if_pos hkeys, if_true, if_false] <;> simp +contextual
  · by_cases hsup : scf.frameCounterSuppression = 0 <;> by_cases hsize : scf.frameCounterSize = 1 <;>
      simp only [hsup, hsize, if_neg hkeys, if_true, if_false] <;> simp <;>
      exact fun hexplicit hmode => absurd ⟨hexplicit, hmode⟩ hkeys

/-- The security header is read as it was written. -/
theorem parseAux_spec (h : InRange p) (hsize : ¬LongFrameCounter cfg p)
    (hsec : cfg.usesAuxHeader ∧ p.fcf.securityEnabled = 1) (hfcf : pf.fcf = p.fcf)
    (hmem : Holds mem pos (auxBytes cfg p)) :
    let scf := p.auxHdr.securityControl
    let aux := (parseAux cfg mem pos pf).2.auxHdr
    aux.securityControl = { scf with
        keyIdMode := if cfg.usesExplicitKeys then scf.keyIdMode
          else pf.auxHdr.securityControl.keyIdMode } ∧
      (scf.frameCounterSuppression = 0 → aux.frameCounter = p.auxHdr.frameCounter) ∧
      (cfg.usesExplicitKeys ∧ scf.keyIdMode ≠ 0 → aux.keyIndex = p.auxHdr.keyIndex ∧
        ∀ i : Fin 8, (i : ℕ) < (scf.keyIdMode.toNat - 1) * 4 →
          aux.keySource i = p.auxHdr.keySource i) := by
  dsimp only
  have hzero : p.auxHdr.securityControl.frameCounterSize = 0 := by
    have hbit : ∀ b : Byte, b < 2 → b ≠ 1 → b = 0 := by decide +kernel
    exact hbit _ h.frameCounterSize fun hlong => hsize ⟨hsec.1, hsec.2, hlong⟩
  have hne : cfg.usesAuxHeader = true ∧ pf.fcf.securityEnabled ≠ 0 := by
    rw [hfcf, hsec.2]
    exact ⟨hsec.1, by decide⟩
  simp only [auxBytes, cons_append, holds_cons, holds_append] at hmem
  obtain ⟨hscf, hcounter, hkey⟩ := hmem
  have hparsed := @parseScf_createScf cfg _ h.securityLevel h.keyIdMode h.frameCounterSuppression
    hzero pf.auxHdr.securityControl
  have hfields := parseAux_fields cfg mem pos hne
  rw [hscf, hparsed] at hfields
  obtain ⟨hcontrol, hcounter', hkey'⟩ := hfields
  refine ⟨hcontrol, ?_, ?_⟩
  · intro hsup
    funext i
    rw [if_pos hsup] at hcounter
    rw [hcounter' hsup i, hcounter i (by simp), List.getElem_ofFn]
  · intro hkeys
    have hmode : (if cfg.usesExplicitKeys then p.auxHdr.securityControl.keyIdMode
        else pf.auxHdr.securityControl.keyIdMode) = p.auxHdr.securityControl.keyIdMode :=
      if_pos hkeys.1
    have hone : p.auxHdr.securityControl.frameCounterSize ≠ 1 := by
      rw [hzero]
      decide
    have hlen : (if p.auxHdr.securityControl.frameCounterSuppression = 0 then
        ofFn p.auxHdr.frameCounter else []).length =
          if p.auxHdr.securityControl.frameCounterSuppression = 0 then 4 else 0 := by
      split_ifs <;> simp
    simp only [hmode, hone, if_false] at hkey'
    rw [hlen] at hkey
    obtain ⟨hindex, hsource⟩ := createKeyId_spec h hkeys hkey
    refine ⟨(hkey' hkeys).1.trans hindex, ?_⟩
    intro i hi
    rw [(hkey' hkeys).2 i hi, hsource i hi]

/-! ## Round trip -/

theorem Written.holds {bs : List Byte} (h : Written mem (bs.map some)) : Holds mem 0 bs := by
  intro i hi
  rw [Nat.zero_add]
  apply h i
  rw [List.getElem?_map, List.getElem?_eq_getElem hi]
  rfl

/-- Every header is in some memory. -/
theorem exists_written (bs : List (Option Byte)) : ∃ mem, Written mem bs := by
  refine ⟨fun i => (bs[i]?).join.getD 0, ?_⟩
  intro i b hb
  simp only [hb, Option.join_some, Option.getD_some]

/-- A memory with a header has its first part at the start. -/
theorem Written.mhr {as : List Byte} {bs : List (Option Byte)} (h : Written mem (as.map some ++ bs)) :
    Holds mem 0 as := by
  apply Written.holds
  intro i b hb
  apply h i
  rw [List.getElem?_append_left, hb]
  exact (List.getElem?_eq_some_iff.mp hb).1

/-- The part of a security header that is not read without explicit keys has no length. -/
theorem auxSecLen_keyIdMode (cfg : FramerConfig) (scf : Frame802154Scf) (mode : Byte) :
    auxSecLen cfg { scf with keyIdMode := if cfg.usesExplicitKeys then scf.keyIdMode else mode } =
      auxSecLen cfg scf := by
  cases hkeys : cfg.usesExplicitKeys <;> simp [auxSecLen, hkeys]

theorem securityEnabled_ne_zero (h : InRange p) :
    p.fcf.securityEnabled ≠ 0 ↔ p.fcf.securityEnabled = 1 :=
  (by decide +kernel : ∀ b : Byte, b < 2 → (b ≠ 0 ↔ b = 1)) _ h.securityEnabled

/-- Up to the security header the description is that which was created. -/
theorem same_mhrParsed (cfg : FramerConfig) (p pf : Frame802154) {aux : Frame802154AuxHdr}
    (haux : cfg.usesAuxHeader ∧ p.fcf.securityEnabled = 1 →
      let scf := p.auxHdr.securityControl
      aux.securityControl = { scf with keyIdMode :=
          if cfg.usesExplicitKeys then scf.keyIdMode else aux.securityControl.keyIdMode } ∧
        (scf.frameCounterSuppression = 0 → aux.frameCounter = p.auxHdr.frameCounter) ∧
        (cfg.usesExplicitKeys ∧ scf.keyIdMode ≠ 0 → aux.keyIndex = p.auxHdr.keyIndex ∧
          ∀ i : Fin 8, (i : ℕ) < (scf.keyIdMode.toNat - 1) * 4 →
            aux.keySource i = p.auxHdr.keySource i)) (n : ℕ) (l : ℤ) :
    Same cfg p { mhrParsed cfg p pf with auxHdr := aux, payload := n, payloadLen := l } where
  fcf := rfl
  destPid := rfl
  srcPid := rfl
  destAddr := rfl
  srcAddr := rfl
  seq := fun hsup => if_pos hsup
  ostPigg1 := fun host => if_pos host
  ostPigg2 := fun host => if_pos host
  securityControl := fun hsec => (haux hsec).1
  frameCounter := fun hsec => (haux hsec).2.1
  keyId := fun hsec => (haux hsec).2.2

/-- The whole header is read as it was written. -/
theorem parse_spec (h : Consistent p) (hpanid : ¬PanidWithoutAddr p.fcf)
    (hsize : ¬LongFrameCounter cfg p)
    (hmem : Written mem ((createMhr cfg p).map some ++ createAux cfg p))
    (hlen : (createMhr cfg p).length + (createAux cfg p).length ≤ len) :
    (frame802154Parse cfg mem len pf).1 = (createMhr cfg p).length + (createAux cfg p).length ∧
      Same cfg p (frame802154Parse cfg mem len pf).2 := by
  have htwo : 2 ≤ (createMhr cfg p).length := by
    rw [length_createMhr]
    omega
  rw [parse_createMhr h hpanid (by omega) hmem.mhr]
  have hfst := parseAux_fst cfg mem (createMhr cfg p).length (mhrParsed cfg p pf)
  have hsnd := parseAux_snd cfg mem (createMhr cfg p).length (mhrParsed cfg p pf)
  have hspec := fun hsec hmem => @parseAux_spec cfg p (mhrParsed cfg p pf) mem
    (createMhr cfg p).length h.inRange hsize hsec rfl hmem
  revert hfst hsnd hspec
  generalize parseAux cfg mem (createMhr cfg p).length (mhrParsed cfg p pf) = r
  obtain ⟨c, q⟩ := r
  generalize haux : q.auxHdr = aux
  intro hfst hsnd hspec
  simp only [haux] at hfst hsnd hspec ⊢
  rw [length_createAux h.inRange] at hlen ⊢
  have hsec_iff : (cfg.usesAuxHeader = true ∧ (mhrParsed cfg p pf).fcf.securityEnabled ≠ 0) ↔
      (cfg.usesAuxHeader = true ∧ p.fcf.securityEnabled = 1) :=
    and_congr_right fun _ => @securityEnabled_ne_zero p h.inRange
  by_cases hsec : cfg.usesAuxHeader = true ∧ p.fcf.securityEnabled = 1
  · have hbytes : Holds mem (createMhr cfg p).length (auxBytes cfg p) := by
      rw [createAux_eq h.inRange hsize hsec, ← map_append] at hmem
      have happend := (holds_append.mp hmem.holds).2
      rwa [Nat.zero_add] at happend
    obtain ⟨hcontrol, hcounter, hkey⟩ := hspec hsec hbytes
    have hauxLen : (fieldLen cfg p).auxSecLen = auxSecLen cfg p.auxHdr.securityControl := by
      have hand : p.fcf.securityEnabled &&& 1#8 ≠ 0 := by
        rw [hsec.2]
        decide
      exact if_pos ⟨hsec.1, hand⟩
    rw [if_pos (hsec_iff.mpr hsec), hcontrol, auxSecLen_keyIdMode, ← hauxLen] at hfst
    rw [hsnd, hfst, if_neg (by omega)]
    refine ⟨rfl, same_mhrParsed cfg p pf (fun _ => ⟨?_, hcounter, hkey⟩) _ _⟩
    rw [hcontrol]
    cases cfg.usesExplicitKeys <;> rfl
  · have hzero : (fieldLen cfg p).auxSecLen = 0 := not_not.mp (mt (hasAux_iff h.inRange).mp hsec)
    rw [if_neg (mt hsec_iff.mp hsec), Nat.add_zero] at hfst
    rw [hsnd, hfst, hzero, if_neg (by omega)]
    exact ⟨rfl, same_mhrParsed cfg p pf (fun hsec' => absurd hsec' hsec) _ _⟩

/-- In the two good cases a header is parsed as it was created. -/
theorem roundTrip_of (h : Consistent (setCompression p))
    (hpanid : ¬PanidWithoutAddr (setCompression p).fcf)
    (hsize : ¬LongFrameCounter cfg (setCompression p)) : RoundTrip cfg p := by
  refine ⟨⟨length_create h.inRange, ?_⟩, ?_⟩
  · simp only [frame802154Create, mem_append, mem_map, reduceCtorEq, and_false,
      exists_false, false_or]
    by_cases hsec : cfg.usesAuxHeader = true ∧ (setCompression p).fcf.securityEnabled = 1
    · simp [createAux_eq h.inRange hsize hsec]
    · have hnone := mt (hasAux_iff h.inRange).mp hsec
      simp [createAux, hnone]
  · intro mem len pf hmem hlen
    simp only [frame802154Create, length_append, length_map] at hmem hlen ⊢
    exact parse_spec h hpanid hsize hmem hlen

theorem setCompression_of_v2015 (h : p.fcf.frameVersion = ieee802154v2015) :
    setCompression p = p := by
  have hlt : ¬ieee802154v2015 < ieee802154v2015 := by decide
  rw [setCompression, h, if_neg hlt]

theorem setCompression_cases (p : Frame802154) : setCompression p = p ∨
    ∃ c, setCompression p = { p with fcf := { p.fcf with panidCompression := c } } := by
  simp only [setCompression]
  split
  · exact Or.inr ⟨_, rfl⟩
  · exact Or.inl rfl

/-- The compression bit is only set where it does not matter for a PAN identifier without
address. -/
theorem panidWithoutAddr_setCompression (p : Frame802154) :
    PanidWithoutAddr (setCompression p).fcf ↔ PanidWithoutAddr p.fcf := by
  by_cases hversion : p.fcf.frameVersion = ieee802154v2015
  · rw [setCompression_of_v2015 hversion]
  · have hversion' : (setCompression p).fcf.frameVersion = p.fcf.frameVersion := by
      obtain hsame | ⟨c, hsame⟩ := setCompression_cases p <;> rw [hsame]
    exact ⟨fun h => absurd (hversion'.symm.trans h.1) hversion, fun h => absurd h.1 hversion⟩

theorem longFrameCounter_setCompression (cfg : FramerConfig) (p : Frame802154) :
    LongFrameCounter cfg (setCompression p) ↔ LongFrameCounter cfg p := by
  obtain hsame | ⟨c, hsame⟩ := setCompression_cases p
  · rw [hsame]
  · rw [hsame]
    rfl

/-- A PAN identifier without address is not read: its bytes are taken for what follows. -/
theorem parse_panidWithoutAddr (h : InRange p) (hpanid : PanidWithoutAddr p.fcf) (hlen : 2 ≤ len)
    (hmem : Holds mem 0 (createMhr cfg p)) : ∃ q, q.fcf = p.fcf ∧
      frame802154Parse cfg mem len pf =
        let (c, q) := parseAux cfg mem (2 + (fieldLen cfg p).ostPiggLen + (fieldLen cfg p).seqnoLen) q
        (if len < c then 0 else c, { q with payload := c, payloadLen := (len : ℤ) - c }) := by
  have htwo : (frame802154CreateFcf p.fcf).length = 2 := rfl
  simp only [createMhr, append_assoc, holds_append, htwo, length_createOst, Nat.zero_add] at hmem
  obtain ⟨hfcf, host, hseq, -⟩ := hmem
  have host : parseOst cfg mem 2 { pf with fcf := p.fcf } = _ := parseOst_createOst host
  rw [length_createOst] at host
  have hdestMode : ¬p.fcf.destAddrMode ≠ 0 := fun hne => hne hpanid.2.1
  have hsrcMode : ¬p.fcf.srcAddrMode ≠ 0 := fun hne => hne hpanid.2.2.1
  refine ⟨_, ?_, parse_eq hlen ?_ host (parseSeq_spec h rfl hseq) (if_neg hdestMode)
    (if_neg hsrcMode)⟩
  · rfl
  · rw [parseFcf_createFcf h hfcf]

theorem fieldLen_auxSecLen (h : InRange p) : (fieldLen cfg p).auxSecLen =
    if cfg.usesAuxHeader ∧ p.fcf.securityEnabled = 1 then auxSecLen cfg p.auxHdr.securityControl
    else 0 := by
  have hbit : ∀ b : Byte, b < 2 → (b &&& 1#8 ≠ 0 ↔ b = 1) := by decide +kernel
  simp only [fieldLen, hbit _ h.securityEnabled]

/-- What has a PAN identifier without address is not parsed as it was created: two bytes are
missing. -/
theorem not_panidWithoutAddr (h : InRange p)
    (hmem : Written mem ((createMhr cfg p).map some ++ createAux cfg p))
    (hparse : (frame802154Parse cfg mem len pf).1 =
      (createMhr cfg p).length + (createAux cfg p).length)
    (hsame : Same cfg p (frame802154Parse cfg mem len pf).2)
    (hlen : (createMhr cfg p).length ≤ len) : ¬PanidWithoutAddr p.fcf := by
  intro hpanid
  have hmhr := length_createMhr cfg p
  have hpid : (fieldLen cfg p).destPidLen = 2 := by
    simp [fieldLen, frame802154HasPanid, hpanid.1, hpanid.2.1, hpanid.2.2]
  have htwo : 2 ≤ len := by omega
  obtain ⟨q, hq, hrest⟩ := parse_panidWithoutAddr h hpanid htwo hmem.mhr
  rw [hrest] at hparse hsame
  have hfst := parseAux_fst cfg mem (2 + (fieldLen cfg p).ostPiggLen + (fieldLen cfg p).seqnoLen) q
  have hcontrol := hsame.securityControl
  rw [length_createAux h, fieldLen_auxSecLen h] at hparse
  revert hparse hfst hcontrol
  generalize parseAux cfg mem (2 + (fieldLen cfg p).ostPiggLen + (fieldLen cfg p).seqnoLen) q = r
  intro hparse hfst hcontrol
  have hsec_iff : (cfg.usesAuxHeader = true ∧ q.fcf.securityEnabled ≠ 0) ↔
      (cfg.usesAuxHeader = true ∧ p.fcf.securityEnabled = 1) := by
    rw [hq]
    exact and_congr_right fun _ => securityEnabled_ne_zero h
  simp only [hsec_iff] at hfst
  simp only at hparse hcontrol
  by_cases hsec : cfg.usesAuxHeader = true ∧ p.fcf.securityEnabled = 1
  · have hlength : auxSecLen cfg r.2.auxHdr.securityControl =
        auxSecLen cfg p.auxHdr.securityControl := by
      rw [hcontrol hsec, auxSecLen_keyIdMode]
    rw [if_pos hsec] at hfst hparse
    split at hparse <;> omega
  · rw [if_neg hsec] at hfst hparse
    split at hparse <;> omega

/-- What has a long frame counter is not parsed as it was created: the flag next to the bit
for its size is not read as it was. -/
theorem not_longFrameCounter (h : Consistent p) (hpanid : ¬PanidWithoutAddr p.fcf)
    (hmem : Written mem ((createMhr cfg p).map some ++ createAux cfg p))
    (hsame : Same cfg p (frame802154Parse cfg mem len pf).2)
    (hlen : (createMhr cfg p).length ≤ len) : ¬LongFrameCounter cfg p := by
  intro hlong
  have hsec : cfg.usesAuxHeader = true ∧ p.fcf.securityEnabled = 1 := ⟨hlong.1, hlong.2.1⟩
  have hne := @securityEnabled_ne_zero p h.inRange
  have htwo : 2 ≤ (createMhr cfg p).length := by
    rw [length_createMhr]
    omega
  have hscf : mem (createMhr cfg p).length = createScf cfg p.auxHdr.securityControl := by
    apply hmem
    rw [List.getElem?_append_right (by simp), length_map, Nat.sub_self, createAux,
      if_pos ((hasAux_iff h.inRange).mpr hsec)]
    rfl
  rw [parse_createMhr h hpanid (htwo.trans hlen) hmem.mhr] at hsame
  have hparsed := (@parseAux_fields (mhrParsed cfg p pf) cfg mem (createMhr cfg p).length
    ⟨hsec.1, hne.mpr hsec.2⟩).1
  have hcontrol := congrArg Frame802154Scf.frameCounterSuppression (hsame.securityControl hsec)
  simp only at hcontrol
  rw [hparsed, hscf] at hcontrol
  simp only [parseScf] at hcontrol
  rw [(@createScf_bits cfg _ h.inRange.securityLevel h.inRange.keyIdMode
    h.inRange.frameCounterSuppression h.inRange.frameCounterSize).2.2.1, hlong.2.2] at hcontrol
  exact (by decide +kernel : ∀ b : Byte, b + 2 * 1 ≠ b) _ hcontrol

/-- A header that is parsed as it was created is in neither of the bad cases. -/
theorem RoundTrip.good (hround : RoundTrip cfg p) (h : Consistent (setCompression p)) :
    ¬PanidWithoutAddr p.fcf ∧ ¬LongFrameCounter cfg p := by
  rw [← panidWithoutAddr_setCompression, ← longFrameCounter_setCompression]
  obtain ⟨mem, hmem⟩ := exists_written (frame802154Create cfg p).1
  obtain ⟨hparse, hsame⟩ := hround.2 mem _ p hmem le_rfl
  simp only [frame802154Create, length_append, length_map] at hmem hparse hsame
  have hpanid := not_panidWithoutAddr h.inRange hmem hparse hsame (Nat.le_add_right _ _)
  exact ⟨hpanid, not_longFrameCounter h hpanid hmem hsame (Nat.le_add_right _ _)⟩

/-- **Header round trip.** A header whose fields are consistent with its modes is parsed as
it was created if and only if it is not a 2015 header with a PAN identifier and no address,
and has no security header with a long frame counter. -/
theorem round_trip_iff (cfg : FramerConfig) (p : Frame802154) (h : Consistent (setCompression p)) :
    RoundTrip cfg p ↔ ¬PanidWithoutAddr p.fcf ∧ ¬LongFrameCounter cfg p := by
  constructor
  · intro hround
    exact hround.good h
  · intro hgood
    rw [← panidWithoutAddr_setCompression, ← longFrameCounter_setCompression] at hgood
    exact roundTrip_of h hgood.1 hgood.2

/-! ## A secured frame -/

/-- A data frame from one node to another with a key index, as it is set up with and without
frame counters. -/
def securedFrame (usesFrameCounter : Bool) : Frame802154 where
  destAddr := fun i => BitVec.ofNat 8 (i + 1)
  srcAddr := fun i => BitVec.ofNat 8 (i + 9)
  fcf :=
    { frameType := 1, securityEnabled := 1, framePending := 0, ackRequired := 1,
      panidCompression := 0, sequenceNumberSuppression := 0, ieListPresent := 0,
      destAddrMode := longAddrMode, frameVersion := ieee802154v2015, srcAddrMode := longAddrMode }
  seq := 7
  destPid := 0xabcd
  srcPid := 0xabcd
  ostPigg1 := 5
  ostPigg2 := 0
  auxHdr :=
    { securityControl :=
        { securityLevel := 5, keyIdMode := 1, frameCounterSuppression := if usesFrameCounter then 0 else 1,
          frameCounterSize := if usesFrameCounter then 0 else 1 }
      frameCounter := 0
      keySource := 0
      keyIndex := 2 }
  payload := 0
  payloadLen := 0

/-- A secured build with explicit keys, and with OST. -/
def securedConfig : FramerConfig where
  withOst := true
  ostOnDemandProvision := false
  usesAuxHeader := true
  usesExplicitKeys := true

theorem consistent_securedFrame (usesFrameCounter : Bool) :
    Consistent (setCompression (securedFrame usesFrameCounter)) := by
  have hlong : AddrMode longAddrMode := Or.inr (Or.inr rfl)
  cases usesFrameCounter <;>
    exact
      { inRange :=
          { frameType := by decide
            securityEnabled := by decide
            framePending := by decide
            ackRequired := by decide
            panidCompression := by decide
            sequenceNumberSuppression := by decide
            ieListPresent := by decide
            frameVersion := by decide
            destAddrMode := hlong
            srcAddrMode := hlong
            securityLevel := by decide
            keyIdMode := by decide
            frameCounterSuppression := by decide
            frameCounterSize := by decide }
        destAddr := by decide
        srcAddr := by decide
        destPid := by decide
        srcPid := by decide }

/-- With frame counters the frame is parsed as it was created. -/
theorem round_trip_securedFrame : RoundTrip securedConfig (securedFrame true) :=
  (round_trip_iff securedConfig (securedFrame true) (consistent_securedFrame true)).mpr
    ⟨by decide, by decide⟩

/-- Without them, when the counter is suppressed and would be long, it is not. -/
theorem suppressed_counter_not_parsed : Consistent (setCompression (securedFrame false)) ∧
    ¬RoundTrip securedConfig (securedFrame false) :=
  ⟨consistent_securedFrame false,
    fun hround => (hround.good (consistent_securedFrame false)).2 (by decide)⟩

end Asap.Framer
