import Asap.Ipv6.Reass
import Asap.Lib.Run

/-!
# What is reassembled

A byte of the buffer that is marked in the bitmap has its `Source`, a fragment that was copied
there since the reassembly was started. That every write is inside, and that what is returned
consists of what the fragments announce, needs the header of each fragment to be where it is read,
the same headers before it in all of them, and room for the headers besides the offset.

## Main definitions

* `ReassStepOk` — what a fragment should do.
* `ReassFits` — the fragments for which it is so.
* `ReassInv` — the invariant.
-/

namespace Asap.Ipv6

open Lib List

variable {cfg : ReassConfig}

/-! ## What should happen -/

namespace Fragment

variable (f : Fragment cfg)

/-- The offset in the fragment header. -/
def announcedOffset : ℕ := fragOffset f.buf f.header

/-- The number of bytes behind the fragment header. -/
def dataLen : ℕ := f.uipLen - (f.header + uipFraghLen)

/-- The source, the destination and the identification. -/
def packet : List Byte × List Byte := (addresses f.buf, fragId f.buf f.header)

end Fragment

/-- Nothing outside the buffer and the bitmap is written. -/
def ReassWrite.Inside (cfg : ReassConfig) : ReassWrite → Prop
  | .buf pos len => pos + len ≤ cfg.bufsize
  | .bitmap index len => index + len ≤ cfg.bufsize / 64

/-- **What is reassembled** is as long as a last fragment says, and each of its bytes is a byte of a
fragment of the same packet, at the offset that the fragment announces. -/
structure Assembled (fragments : List (Fragment cfg)) (f : Fragment cfg) (out : ℕ → Byte) (len : ℕ) :
    Prop where
  length : ∃ g ∈ fragments, g.packet = f.packet ∧ moreFragments g.buf g.header = false ∧
    len = f.header + (g.announcedOffset + g.dataLen)
  bytes : ∀ k, f.header + k < len → ∃ g ∈ fragments, g.packet = f.packet ∧
    g.announcedOffset ≤ k ∧ k < g.announcedOffset + g.dataLen ∧
    out (f.header + k) = g.buf (g.header + uipFraghLen + (k - g.announcedOffset))

/-- **What should happen:** every write so far is inside, and a packet that is returned is assembled
from fragments that came since the start. -/
def ReassStepOk (s : Reass cfg) : ReassEvent cfg → Prop
  | .fragment f => (∀ w ∈ (uipReass s f).1.writes, w.Inside cfg) ∧
      ∀ out len, (uipReass s f).2 = .packet out len → Assembled (uipReass s f).1.fragments f out len
  | .tooLate => ∀ w ∈ (s.step .tooLate).writes, w.Inside cfg

/-- A fragment is discarded: it is of another packet, too long, or not a multiple of eight bytes. -/
def Discarded (s : Reass cfg) (f : Fragment cfg) : Prop :=
  (s.on = true ∧ ¬ s.Matches f) ∨ cfg.bufsize < f.offset + f.len ∨
    (moreFragments f.buf' f.fragBuf = true ∧ f.len % 8 ≠ 0)

/-- **The fragments that are reassembled as they should:** the fragment header is where
`uip_ext_len` ends, as in the other fragments, and there is room for the headers and for what is
behind them, in the buffer and in the bitmap. -/
def ReassFits (s : Reass cfg) : ReassEvent cfg → Prop
  | .fragment f => ¬ Discarded s f →
      f.header = f.fragBuf ∧ (s.on = true → ∀ g ∈ s.fragments, g.uipExtLen = f.uipExtLen) ∧
        f.fragBuf + f.offset + f.len ≤ cfg.bufsize ∧ (f.offset + f.len) / 64 < cfg.bufsize / 64
  | .tooLate => True

/-! ## The invariant -/

section

variable (s : Reass cfg)

/-- A byte behind the headers is that of a fragment. -/
def Source (ext k : ℕ) : Prop :=
  ∃ g ∈ s.fragments, g.offset ≤ k ∧ k < g.offset + g.len ∧
    s.reassbuf (uipIphLen + ext + k) =
      g.buf (uipIphLen + ext + uipFraghLen + (k - g.offset))

/-- A fragment that has been copied. -/
structure Copied (ext : ℕ) (g : Fragment cfg) : Prop where
  header : g.header = uipIphLen + ext
  extLen : g.uipExtLen = ext
  addresses : addresses g.buf = Ipv6.addresses s.reassbuf
  id : fragId g.buf (uipIphLen + ext) = s.id
  len : g.uipLen = uipIphLen + ext + uipFraghLen + g.len
  le_bufsize : uipIphLen + ext + g.offset + g.len ≤ cfg.bufsize
  lt_bitmap : (g.offset + g.len) / 64 < cfg.bufsize / 64

/-- **What is marked has been filled.** -/
structure Filled (ext : ℕ) : Prop where
  copied : ∀ g ∈ s.fragments, Copied s ext g
  marked : ∀ k, k / 64 < cfg.bufsize / 64 → Marked s.bitmap (k / 8) → Source s ext k

/-- What the last fragment says. -/
def LastFragment (ext : ℕ) : Prop :=
  s.lastFrag = true → ∃ l ∈ s.fragments, moreFragments l.buf l.header = false ∧
    s.reasslen = l.offset + l.len ∧
    ∀ k, s.reasslen / 8 * 8 ≤ k → k < s.reasslen → Source s ext k

/-- **The invariant.** -/
structure ReassInv : Prop where
  inside : ∀ w ∈ s.writes, w.Inside cfg
  filled : s.on = true → s.fragments ≠ [] ∧ ∃ ext, Filled s ext ∧ LastFragment s ext

end

/-! ## One fragment -/

section Step

variable {s : Reass cfg} {f : Fragment cfg} {ext k : ℕ}

theorem Fragment.header_le (f : Fragment cfg) : f.fragBuf ≤ cfg.bufsize := by
  have hheaders := f.headers_le
  have hle := f.le_bufsize
  rw [Fragment.fragBuf]
  omega

theorem forty_le_fragBuf (f : Fragment cfg) : 40 ≤ f.fragBuf := Nat.le_add_right _ _

theorem store_bytesAt {mem buf : ℕ → Byte} {pos src n i : ℕ} (hle : pos ≤ i) (hlt : i < pos + n) :
    store mem pos (bytesAt buf src n) i = buf (src + (i - pos)) := by
  have hheld := holds_store mem pos (bytesAt buf src n) (i - pos)
    (by rw [length_bytesAt]; omega)
  rw [Nat.add_sub_cancel' hle] at hheld
  rw [hheld]
  simp [bytesAt]

/-- The headers of a packet of the same addresses. -/
theorem addresses_copyHeaders {buf : ℕ → Byte} :
    addresses (s.copyHeaders f buf).reassbuf = addresses buf := by
  have hforty := forty_le_fragBuf f
  rw [addresses, addresses, bytesAt, bytesAt]
  refine map_congr_left fun i hi => ?_
  rw [mem_range] at hi
  rw [Reass.copyHeaders_reassbuf, store_bytesAt (Nat.zero_le _) (by omega)]
  congr 1
  omega

theorem reassbuf_copyHeaders {buf : ℕ → Byte} (hk : f.fragBuf ≤ k) :
    (s.copyHeaders f buf).reassbuf k = s.reassbuf k := by
  rw [Reass.copyHeaders_reassbuf]
  exact store_of_le (by rw [length_bytesAt]; omega)

theorem matches_start (s : Reass cfg) (f : Fragment cfg) : (s.start f).Matches f :=
  ⟨addresses_copyHeaders, rfl⟩

/-- A new reassembly has nothing in it. -/
theorem filled_start (s : Reass cfg) (f : Fragment cfg) (ext : ℕ) :
    Filled (s.start f) ext ∧ LastFragment (s.start f) ext := by
  refine ⟨⟨fun g hg => absurd hg not_mem_nil, fun k hk hmarked => ?_⟩, fun h => ?_⟩
  · have hzero : (s.start f).bitmap (k / 8 / 8) = 0 := by
      rw [Nat.div_div_eq_div_mul]
      exact if_pos hk
    rw [Marked, hzero] at hmarked
    exact absurd hmarked not_marked_zero
  · exact absurd h Bool.false_ne_true

theorem Copied.congr {s' : Reass cfg} {g : Fragment cfg} (h : Copied s ext g)
    (haddresses : Ipv6.addresses s'.reassbuf = Ipv6.addresses s.reassbuf) (hid : s'.id = s.id) :
    Copied s' ext g where
  header := h.header
  extLen := h.extLen
  addresses := h.addresses.trans haddresses.symm
  id := h.id.trans hid.symm
  len := h.len
  le_bufsize := h.le_bufsize
  lt_bitmap := h.lt_bitmap

theorem Source.congr {s' : Reass cfg} (h : Source s ext k) (hfragments : s'.fragments = s.fragments)
    (hbuf : s'.reassbuf (uipIphLen + ext + k) = s.reassbuf (uipIphLen + ext + k)) :
    Source s' ext k := by
  obtain ⟨g, hg, hle, hlt, hsource⟩ := h
  exact ⟨g, hfragments ▸ hg, hle, hlt, hbuf.trans hsource⟩

/-- The fragment header is where it is read. -/
theorem buf'_eq (hheader : f.header = f.fragBuf) : f.buf' = f.buf := by
  rw [Fragment.buf', hheader, Function.update_eq_self, ite_self]

/-- The first fragment changes nothing behind the headers. -/
theorem first_spec' (hheader : f.header = f.fragBuf) (hext : f.uipExtLen = ext)
    (hmatches : s.Matches f) (k : ℕ) :
    (s.first f).reassbuf (uipIphLen + ext + k) = s.reassbuf (uipIphLen + ext + k) ∧
      addresses (s.first f).reassbuf = addresses s.reassbuf ∧
      (s.first f).fragments = s.fragments ∧ (s.first f).bitmap = s.bitmap ∧
      (s.first f).id = s.id ∧ (s.first f).lastFrag = s.lastFrag ∧
      (s.first f).reasslen = s.reasslen ∧ (s.first f).on = s.on := by
  rw [Reass.first]
  by_cases hzero : f.offset = 0
  · rw [if_pos hzero, buf'_eq hheader]
    have hkept : (s.copyHeaders f f.buf).reassbuf (uipIphLen + ext + k) =
        s.reassbuf (uipIphLen + ext + k) :=
      reassbuf_copyHeaders (by rw [Fragment.fragBuf, hext]; omega)
    exact ⟨hkept, addresses_copyHeaders.trans hmatches.1.symm, rfl, rfl, rfl, rfl, rfl, rfl⟩
  · rw [if_neg hzero]
    exact ⟨rfl, rfl, rfl, rfl, rfl, rfl, rfl, rfl⟩

theorem Filled.first (h : Filled s ext) (hheader : f.header = f.fragBuf) (hext : f.uipExtLen = ext)
    (hmatches : s.Matches f) : Filled (s.first f) ext := by
  obtain ⟨-, haddresses, hfragments, hbitmap, hid, -⟩ := first_spec' hheader hext hmatches 0
  refine ⟨fun g hg => ?_, fun k hk hmarked => ?_⟩
  · rw [hfragments] at hg
    exact (h.copied g hg).congr haddresses hid
  · rw [hbitmap] at hmarked
    exact (h.marked k hk hmarked).congr hfragments (first_spec' hheader hext hmatches k).1

theorem LastFragment.first (h : LastFragment s ext) (hheader : f.header = f.fragBuf)
    (hext : f.uipExtLen = ext) (hmatches : s.Matches f) : LastFragment (s.first f) ext := by
  obtain ⟨-, -, hfragments, -, -, hlast, hreasslen, -⟩ := first_spec' hheader hext hmatches 0
  intro hset
  rw [hlast] at hset
  obtain ⟨l, hl, hmore, hlen, hsource⟩ := h hset
  refine ⟨l, hfragments ▸ hl, hmore, hreasslen.trans hlen, fun k hle hlt => ?_⟩
  rw [hreasslen] at hle hlt
  exact (hsource k hle hlt).congr hfragments (first_spec' hheader hext hmatches k).1

/-- The bytes of a fragment have their source. -/
theorem source_copy_self (hheader : f.header = f.fragBuf) (hext : f.uipExtLen = ext)
    (hle : f.offset ≤ k) (hlt : k < f.offset + f.len) : Source (s.copy f) ext k := by
  refine ⟨f, mem_append_right _ (mem_singleton_self f), hle, hlt, ?_⟩
  rw [Reass.copy_reassbuf, store_bytesAt (by rw [Fragment.fragBuf, hext]; omega)
    (by rw [Fragment.fragBuf, hext]; omega), buf'_eq hheader, Fragment.fragBuf, hext]
  congr 1
  omega

/-- The other bytes keep theirs. -/
theorem Source.copy (h : Source s ext k) (hheader : f.header = f.fragBuf)
    (hext : f.uipExtLen = ext) : Source (s.copy f) ext k := by
  by_cases hin : f.offset ≤ k ∧ k < f.offset + f.len
  · exact source_copy_self hheader hext hin.1 hin.2
  · obtain ⟨g, hg, hle, hlt, hsource⟩ := h
    refine ⟨g, mem_append_left _ hg, hle, hlt, ?_⟩
    rw [← hsource, Reass.copy_reassbuf]
    have hfragBuf : f.fragBuf = uipIphLen + ext := by rw [Fragment.fragBuf, hext]
    by_cases hlow : k < f.offset
    · exact store_of_lt (by omega)
    · exact store_of_le (by rw [length_bytesAt]; omega)

/-- A fragment that fits does not reach the headers. -/
theorem addresses_copy : addresses (s.copy f).reassbuf = addresses s.reassbuf := by
  have hforty := forty_le_fragBuf f
  rw [addresses, addresses, bytesAt, bytesAt]
  refine map_congr_left fun i hi => ?_
  rw [mem_range] at hi
  rw [Reass.copy_reassbuf]
  exact store_of_lt (by omega)

/-- **A fragment is copied.** -/
theorem Filled.copy (h : Filled s ext) (hheader : f.header = f.fragBuf) (hext : f.uipExtLen = ext)
    (hmatches : addresses f.buf = addresses s.reassbuf ∧ fragId f.buf f.fragBuf = s.id)
    (hroom : f.fragBuf + f.offset + f.len ≤ cfg.bufsize)
    (hbitmap : (f.offset + f.len) / 64 < cfg.bufsize / 64) : Filled (s.copy f) ext := by
  have hfragBuf : f.fragBuf = uipIphLen + ext := by rw [Fragment.fragBuf, hext]
  have hlen : f.uipLen = uipIphLen + ext + uipFraghLen + f.len := by
    have hheaders := f.headers_le
    have hle := f.le_bufsize
    have hlt := cfg.bufsize_lt
    have hdef : f.len = (f.uipLen + 65536 - f.uipExtLen - uipIphLen - uipFraghLen) % 65536 := rfl
    simp only [uipIphLen, uipFraghLen] at *
    omega
  refine ⟨fun g hg => ?_, fun k hk hmarked => ?_⟩
  · rcases mem_append.mp hg with hg | hg
    · exact (h.copied g hg).congr addresses_copy rfl
    · rw [mem_singleton.mp hg]
      refine ⟨hheader.trans hfragBuf, hext, hmatches.1.trans addresses_copy.symm, ?_, hlen, ?_,
        hbitmap⟩
      · rw [← hfragBuf]
        exact hmatches.2
      · rw [← hfragBuf]
        exact hroom
  · rw [Reass.copy_bitmap, marked_markRange (Nat.div_le_div_right (Nat.le_add_right _ _))] at hmarked
    rcases hmarked with hmarked | ⟨hle, hlt⟩
    · exact (h.marked k hk hmarked).copy hheader hext
    · have hoffset : f.offset = f.offset / 8 * 8 := by
        rw [Fragment.offset, fragOffset, Nat.mul_div_cancel _ (by decide)]
      exact source_copy_self hheader hext (by omega) (by omega)

theorem LastFragment.copy (h : LastFragment s ext) (hheader : f.header = f.fragBuf)
    (hext : f.uipExtLen = ext) : LastFragment (s.copy f) ext := by
  intro hset
  obtain ⟨l, hl, hmore, hlen, hsource⟩ := h hset
  exact ⟨l, mem_append_left _ hl, hmore, hlen,
    fun k hle hlt => (hsource k hle hlt).copy hheader hext⟩

/-- The last fragment says how long the packet is. -/
theorem lastFragment_copy (hheader : f.header = f.fragBuf) (hext : f.uipExtLen = ext)
    (hmore : moreFragments f.buf' f.fragBuf = false) :
    LastFragment (({ s with lastFrag := true, reasslen := f.offset + f.len }).copy f) ext := by
  intro _
  refine ⟨f, mem_append_right _ (mem_singleton_self f), ?_, rfl, fun k hle hlt => ?_⟩
  · rw [hheader, ← buf'_eq hheader]
    exact hmore
  · have hoffset : f.offset = f.offset / 8 * 8 := by
      rw [Fragment.offset, fragOffset, Nat.mul_div_cancel _ (by decide)]
    have hle : (f.offset + f.len) / 8 * 8 ≤ k := hle
    exact source_copy_self hheader hext (by omega) hlt

/-- **A packet that is complete** is assembled from the fragments. -/
theorem Filled.complete (h : Filled s ext) (hlast : LastFragment s ext) (hf : f ∈ s.fragments)
    {out : ℕ → Byte} {len : ℕ} (hout : (s.complete f).2 = .packet out len) :
    Assembled s.fragments f out len := by
  rw [Reass.complete] at hout
  by_cases hfull : s.lastFrag = true ∧ FullTo s.bitmap (s.reasslen / 8)
  · rw [if_pos hfull] at hout
    obtain ⟨l, hl, hmore, hlen, hsource⟩ := hlast hfull.1
    have hcopied := h.copied l hl
    have hcopied' := h.copied f hf
    have hpacket : ∀ g ∈ s.fragments, g.packet = f.packet := by
      intro g hg
      have hg := h.copied g hg
      rw [Fragment.packet, Fragment.packet, hg.header, hcopied'.header, hg.addresses,
        hcopied'.addresses, hg.id, hcopied'.id]
    have hannounced : ∀ g ∈ s.fragments, g.announcedOffset = g.offset ∧ g.dataLen = g.len := by
      intro g hg
      have hg := h.copied g hg
      refine ⟨?_, ?_⟩
      · rw [Fragment.announcedOffset, Fragment.offset, Fragment.fragBuf, hg.header, hg.extLen]
      · rw [Fragment.dataLen, hg.header, hg.len]
        omega
    have hfragBuf : f.fragBuf = uipIphLen + ext := by rw [Fragment.fragBuf, hcopied'.extLen]
    have hroom := hcopied.le_bufsize
    have hlt := cfg.bufsize_lt
    have hmod : (s.reasslen + f.fragBuf) % 65536 = s.reasslen + f.fragBuf :=
      Nat.mod_eq_of_lt (by omega)
    simp only [hmod, ReassResult.packet.injEq] at hout
    obtain ⟨rfl, rfl⟩ := hout
    refine ⟨⟨l, hl, hpacket l hl, hmore, ?_⟩, fun k hk => ?_⟩
    · rw [(hannounced l hl).1, (hannounced l hl).2, hcopied'.header, hfragBuf]
      omega
    · rw [hcopied'.header] at hk ⊢
      have hsourced : Source s ext k := by
        by_cases hpart : s.reasslen / 8 * 8 ≤ k
        · exact hsource k hpart (by omega)
        · have hbits := hcopied.lt_bitmap
          refine h.marked k ?_ (hfull.2.marked (by omega))
          have hle : k / 64 ≤ (l.offset + l.len) / 64 := Nat.div_le_div_right (by omega)
          omega
      obtain ⟨g, hg, hle, hlt, hbyte⟩ := hsourced
      refine ⟨g, hg, hpacket g hg, ?_, ?_, ?_⟩
      · rw [(hannounced g hg).1]
        exact hle
      · rw [(hannounced g hg).1, (hannounced g hg).2]
        exact hlt
      · rw [(h.copied g hg).header, (hannounced g hg).1]
        exact hbyte
  · rw [if_neg hfull] at hout
    exact absurd hout (by simp)

/-- Every write so far is inside. -/
def WritesInside (s : Reass cfg) : Prop := ∀ w ∈ s.writes, w.Inside cfg

theorem WritesInside.append (h : WritesInside s) {s' : Reass cfg} {ws : List ReassWrite}
    (hwrites : s'.writes = s.writes ++ ws) (hws : ∀ w ∈ ws, w.Inside cfg) : WritesInside s' := by
  intro w hw
  rw [hwrites] at hw
  exact (mem_append.mp hw).elim (h w) (hws w)

theorem WritesInside.start (h : WritesInside s) (f : Fragment cfg) : WritesInside (s.start f) := by
  refine h.append (append_assoc _ _ _) fun w hw => ?_
  rcases mem_cons.mp hw with rfl | hw
  · change 0 + f.fragBuf ≤ cfg.bufsize
    rw [Nat.zero_add]
    exact f.header_le
  · rw [mem_singleton.mp hw]
    exact Nat.le_of_eq (Nat.zero_add _)

theorem WritesInside.first (h : WritesInside s) (f : Fragment cfg) : WritesInside (s.first f) := by
  rw [Reass.first]
  by_cases hzero : f.offset = 0
  · rw [if_pos hzero]
    refine h.append rfl fun w hw => ?_
    rw [mem_singleton.mp hw]
    change 0 + f.fragBuf ≤ cfg.bufsize
    rw [Nat.zero_add]
    exact f.header_le
  · rw [if_neg hzero]
    exact h

theorem WritesInside.copy (h : WritesInside s) (hroom : f.fragBuf + f.offset + f.len ≤ cfg.bufsize)
    (hbitmap : (f.offset + f.len) / 64 < cfg.bufsize / 64) : WritesInside (s.copy f) := by
  refine h.append rfl fun w hw => ?_
  rcases mem_cons.mp hw with rfl | hw
  · exact hroom
  · rw [mem_singleton.mp hw]
    change f.offset / 64 + ((f.offset + f.len) / 64 + 1 - f.offset / 64) ≤ cfg.bufsize / 64
    have hle : f.offset / 64 ≤ (f.offset + f.len) / 64 :=
      Nat.div_le_div_right (Nat.le_add_right _ _)
    omega

/-- What a fragment that is copied leaves, and what is returned. -/
theorem complete_spec (hinside : WritesInside s) (hfilled : Filled s ext)
    (hlast : LastFragment s ext) (hf : f ∈ s.fragments) :
    ReassInv (s.complete f).1 ∧ WritesInside (s.complete f).1 ∧
      ∀ out len, (s.complete f).2 = .packet out len →
        Assembled (s.complete f).1.fragments f out len := by
  have hne : s.fragments ≠ [] := ne_nil_of_mem hf
  refine ⟨?_, ?_, fun out len hout => ?_⟩
  · rw [Reass.complete]
    by_cases hfull : s.lastFrag = true ∧ FullTo s.bitmap (s.reasslen / 8)
    · rw [if_pos hfull]
      exact ⟨hinside, fun hon => absurd hon Bool.false_ne_true⟩
    · rw [if_neg hfull]
      exact ⟨hinside, fun _ => ⟨hne, ext, hfilled, hlast⟩⟩
  · rw [Reass.complete]
    by_cases hfull : s.lastFrag = true ∧ FullTo s.bitmap (s.reasslen / 8)
    · rw [if_pos hfull]
      exact hinside
    · rw [if_neg hfull]
      exact hinside
  · have hassembled := hfilled.complete hlast hf hout
    have hsame : (s.complete f).1.fragments = s.fragments := by
      rw [Reass.complete]
      split_ifs <;> rfl
    rw [hsame]
    exact hassembled

/-- The last fragment is noted. -/
theorem Filled.setLast (h : Filled s ext) (n : ℕ) :
    Filled { s with lastFrag := true, reasslen := n } ext :=
  ⟨fun g hg => (h.copied g hg).congr rfl rfl, h.marked⟩

theorem WritesInside.setLast (h : WritesInside s) (n : ℕ) :
    WritesInside { s with lastFrag := true, reasslen := n } := h

/-- **A fragment** that fits does what it should. -/
theorem ReassInv.fragment (h : ReassInv s) (hfits : ReassFits s (.fragment f)) :
    ReassInv (uipReass s f).1 ∧ ReassStepOk s (.fragment f) := by
  have hoff : ∀ {s' : Reass cfg}, s'.on = false → WritesInside s' → ReassInv s' :=
    fun hfalse hinside => ⟨hinside, fun hon => absurd (hfalse.symm.trans hon) Bool.false_ne_true⟩
  obtain ⟨s₀, hs₀⟩ : ∃ s₀, (if s.on = true then s else s.start f) = s₀ := ⟨_, rfl⟩
  have hinside₀ : WritesInside s₀ := by
    rw [← hs₀]
    by_cases hon : s.on = true
    · rw [if_pos hon]
      exact h.inside
    · rw [if_neg hon]
      exact WritesInside.start h.inside f
  rw [ReassStepOk, uipReass, hs₀]
  by_cases hmatches : s₀.Matches f
  · rw [if_pos hmatches]
    have hinside₁ := hinside₀.first f
    by_cases hlong : cfg.bufsize < f.offset ∨ cfg.bufsize < f.offset + f.len
    · simp only [if_pos hlong]
      exact ⟨hoff rfl hinside₁, hinside₁, fun _ _ hout => absurd hout (by simp)⟩
    · simp only [if_neg hlong]
      rw [not_or, Nat.not_lt, Nat.not_lt] at hlong
      by_cases herror : moreFragments f.buf' f.fragBuf = true ∧ f.len % 8 ≠ 0
      · rw [if_neg (by rw [herror.1]; decide), if_pos herror.2]
        exact ⟨hoff rfl hinside₁, hinside₁, fun _ _ hout => absurd hout (by simp)⟩
      · -- the fragment is copied
        have hkept : ¬ Discarded s f := by
          rintro (⟨hon, hnot⟩ | hlt | hmore)
          · rw [if_pos hon] at hs₀
            rw [hs₀] at hnot
            exact hnot hmatches
          · omega
          · exact herror hmore
        obtain ⟨hheader, hext, hroom, hbitmap⟩ := hfits hkept
        have hfilled₀ : Filled s₀ f.uipExtLen ∧ LastFragment s₀ f.uipExtLen := by
          by_cases hon : s.on = true
          · rw [if_pos hon] at hs₀
            obtain ⟨hne, ext, hfilled, hlast⟩ := h.filled hon
            obtain ⟨g, hg⟩ := exists_mem_of_ne_nil _ hne
            rw [← hs₀, ← hext hon g hg, (hfilled.copied g hg).extLen]
            exact ⟨hfilled, hlast⟩
          · rw [if_neg hon] at hs₀
            rw [← hs₀]
            exact filled_start s f _
        obtain ⟨-, haddresses, -, -, hid, -⟩ := first_spec' hheader rfl hmatches 0
        have hfilled₁ := hfilled₀.1.first hheader rfl hmatches
        have hmatches₁ : addresses f.buf = addresses (s₀.first f).reassbuf ∧
            fragId f.buf f.fragBuf = (s₀.first f).id :=
          ⟨hmatches.1.symm.trans haddresses.symm, hmatches.2.trans hid.symm⟩
        have hmem : ∀ s' : Reass cfg, f ∈ (s'.copy f).fragments :=
          fun s' => mem_append_right _ (mem_singleton_self f)
        cases hmore : moreFragments f.buf' f.fragBuf with
        | false =>
          rw [if_pos rfl]
          have hcopy := (hfilled₁.setLast (f.offset + f.len)).copy hheader rfl hmatches₁ hroom hbitmap
          have hinside := (hinside₁.setLast (f.offset + f.len)).copy hroom hbitmap
          exact complete_spec hinside hcopy (lastFragment_copy hheader rfl hmore) (hmem _)
        | true =>
          have haligned : ¬ f.len % 8 ≠ 0 := fun hne => herror ⟨hmore, hne⟩
          rw [if_neg (by decide), if_neg haligned]
          have hcopy := hfilled₁.copy hheader rfl hmatches₁ hroom hbitmap
          have hlast := (hfilled₀.2.first hheader rfl hmatches).copy hheader rfl
          exact complete_spec (hinside₁.copy hroom hbitmap) hcopy hlast (hmem _)
  · rw [if_neg hmatches]
    by_cases hon : s.on = true
    · rw [if_pos hon] at hs₀
      rw [← hs₀]
      exact ⟨h, h.inside, fun _ _ hout => absurd hout (by simp)⟩
    · rw [if_neg hon] at hs₀
      rw [← hs₀] at hmatches
      exact absurd (matches_start s f) hmatches

theorem ReassInv.step {e : ReassEvent cfg} (h : ReassInv s) (hfits : ReassFits s e) :
    ReassInv (s.step e) ∧ ReassStepOk s e := by
  cases e with
  | fragment f => exact h.fragment hfits
  | tooLate => exact ⟨⟨h.inside, fun hon => absurd hon Bool.false_ne_true⟩, h.inside⟩

end Step

/-! ## Every run -/

/-- Nothing is reassembled, whatever the buffers hold. -/
def Reass.init (reassbuf bitmap : ℕ → Byte) : Reass cfg :=
  ⟨reassbuf, bitmap, 0, false, false, false, false, [], [], []⟩

/-- The reassembly after a run. -/
def Reass.after (s : Reass cfg) (events : List (ReassEvent cfg)) : Reass cfg :=
  events.foldl Reass.step s

/-- Every event of a run fits. -/
def ReassFitsAlong (s : Reass cfg) (events : List (ReassEvent cfg)) : Prop :=
  Along (fun s e => some (Reass.step s e)) ReassFits s events

theorem reassInv_init (reassbuf bitmap : ℕ → Byte) :
    ReassInv (Reass.init reassbuf bitmap : Reass cfg) where
  inside _ hw := absurd hw not_mem_nil
  filled hon := absurd hon Bool.false_ne_true

theorem ReassInv.after {s : Reass cfg} {events : List (ReassEvent cfg)} (h : ReassInv s)
    (hfits : ReassFitsAlong s events) : ReassInv (s.after events) :=
  run_induction ReassInv
    (fun _ _ _ hfits h hstep => by
      rw [← Option.some.inj hstep]
      exact (h.step hfits).1) h hfits (run_some Reass.step s events)

/-- **Reassembly.** In every run of fragments that are discarded or fit, every write is inside the
buffer and the bitmap, and a packet that is returned is assembled from fragments that came since
the start. Behind the length that `uip_process` computes there is no fragment header: it counts
every header up to that of the upper layer. -/
theorem uip_reass_assembles (reassbuf bitmap : ℕ → Byte) (events : List (ReassEvent cfg))
    (e : ReassEvent cfg) (h : ReassFitsAlong (.init reassbuf bitmap) (events ++ [e])) :
    (∀ w ∈ ((Reass.init reassbuf bitmap).after events).writes, w.Inside cfg) ∧
      ReassStepOk ((Reass.init reassbuf bitmap).after events) e ∧
      ∀ buf size header proto last, InChain buf size 44 header →
        uipbufGetLastHeader buf size = (proto, some last) → header + uipFraghLen ≤ last := by
  rw [ReassFitsAlong, along_append (run_some Reass.step _ events)] at h
  have hinv := (reassInv_init reassbuf bitmap).after h.1
  exact ⟨hinv.inside, (hinv.step h.2.1).2, fun _ _ _ _ _ hchain hlast => hchain.lt_last rfl hlast⟩

theorem reassBufsize_lt : 1280 < 65536 := by decide

/-- A buffer of 1280 bytes. -/
def reassConfig : ReassConfig := ⟨1280, reassBufsize_lt⟩

/-- A packet from zero to zero, with a fragment header that names the bytes `offsetresmore`. -/
def fragmentAt (offsetHigh offsetLow : Byte) (i : ℕ) : Byte :=
  if i = 6 then 44 else if i = 40 then 17 else if i = 42 then offsetHigh else
    if i = 43 then offsetLow else 0

/-- The first eight bytes of a packet. -/
def firstEight : Fragment reassConfig := ⟨fragmentAt 0 1, 56, 0, 40, by decide, by decide⟩

/-- The last four bytes of the packet. -/
def lastFour : Fragment reassConfig := ⟨fragmentAt 0 8, 52, 0, 40, by decide, by decide⟩

theorem uip_reass_assembles_twelve :
    (∀ w ∈ ((Reass.init (fun _ => 0) fun _ => 0 : Reass reassConfig).after
        [.fragment firstEight]).writes, w.Inside reassConfig) ∧
      ReassStepOk ((Reass.init (fun _ => 0) fun _ => 0).after [.fragment firstEight])
        (.fragment lastFour) ∧
      ∀ buf size header proto last, InChain buf size 44 header →
        uipbufGetLastHeader buf size = (proto, some last) → header + uipFraghLen ≤ last := by
  refine uip_reass_assembles (fun _ => 0) (fun _ => 0) [.fragment firstEight] (.fragment lastFour)
    ⟨fun _ => ⟨rfl, fun hon => absurd hon Bool.false_ne_true, by decide, by decide⟩,
      fun _ => ⟨rfl, fun _ g hg => ?_, by decide, by decide⟩, trivial⟩
  have hlist : ((Reass.init (fun _ => 0) fun _ => 0 : Reass reassConfig).step
      (.fragment firstEight)).fragments = [firstEight] := rfl
  rw [hlist, List.mem_singleton] at hg
  rw [hg]
  rfl

/-- A packet whose fragment header is followed by a header of UDP with the destination port 1272. -/
def portPacket (i : ℕ) : Byte :=
  if i = 6 then 44 else if i = 40 then 17 else if i = 50 then 0x04 else if i = 51 then 0xF8 else 0

/-- The packet as `uip_process` hands it over. -/
def portFragment : Fragment reassConfig := ⟨portPacket, 64, 8, 40, by decide, by decide⟩

/-- **A fragment is copied behind the buffer**: its offset is read behind its fragment header, and
the headers are not counted in the check of its length. -/
theorem port_copied_behind :
    InChain portPacket 64 44 40 ∧ uipbufGetLastHeader portPacket 64 = (17, some (40 + 8)) ∧
      ¬ ReassStepOk (.init (fun _ => 0) fun _ => 0) (.fragment portFragment) := by
  refine ⟨.first (by decide), by decide, fun h => ?_⟩
  have hwrite : ReassWrite.buf 1320 8 ∈
      (uipReass (.init (fun _ => 0) fun _ => 0) portFragment).1.writes := by decide
  have hinside : 1320 + 8 ≤ 1280 := h.1 _ hwrite
  omega

end Asap.Ipv6
