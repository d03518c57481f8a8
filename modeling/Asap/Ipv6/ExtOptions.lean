import Asap.Ipv6.NeighborDiscovery
import Asap.Lib.Tlv
import Asap.Rpl.HbhUpdate

/-!
# Options of extension headers

A header of options is walked through option by option. The length byte is looked at before the type,
of a padding byte as well, which has no length; and a last byte that stands alone is not looked at.

A router processes the hop-by-hop header of each packet before it knows whether the packet is for
itself. If it is, the headers are processed again from the first one on, and so the RPL option is
processed twice: the first time sets the rank-error flag, for which the second time may drop the
packet.

## Main definitions

* `extHdrOptionsProcess` — the options of a header.
* `ValidOption`, `HeaderRight`, `HeaderCond` — the headers that ought to be accepted, and when they
  are.
* `uipProcessHeaders` — the extension headers of a packet.
* `OptionsRight`, `ProcessedTwice` — what is wanted of the RPL option, and what happens to it.

## Main results

* `ext_hdr_options` — headers are judged right, and options processed once, exactly under the
  conditions.
-/

namespace Asap.Ipv6

open Lib Rpl List

/-! ## The options of a header -/

/-- An option that was given to `ext_header_hbh_update`, and what became of the packet. -/
structure Visit where
  pos : ℕ
  verdict : HbhVerdict

/-- The packet and the routing protocol, and the options that were given to it. -/
structure Processing where
  buf : ℕ → Byte
  rpl : RplTables
  visits : List Visit

/-- What `ext_hdr_options_process` returns: 0, 1 or 2, the last one if an error was prepared. -/
inductive OptionsResult
  | accept | drop | error
deriving DecidableEq, Repr

/-- `uip_is_addr_mcast` of the destination -/
def Processing.toMcast (p : Processing) : Bool := p.buf 24 = 0xFF

/-- The end of the extension header at an offset. -/
def extEnd (buf : ℕ → Byte) (ext : ℕ) : ℕ := ext + ((buf (ext + 1)).toNat * 8 + 8)

section Options

variable (selectDag : HbhDag → BitVec 16 → HbhDag)

/-- An option is given to `ext_header_hbh_update`. -/
def Processing.visit (p : Processing) (ext pos : ℕ) : Processing :=
  let update := rplExtHeaderHbhUpdate selectDag p.rpl p.buf ext pos
  ⟨update.2.2, update.2.1, p.visits ++ [⟨pos, update.1⟩]⟩

/-- The loop of `ext_hdr_options_process`. -/
def optionsLoop (ext stop : ℕ) : ℕ → Processing → ℕ → OptionsResult × Processing
  | 0, p, _ => (.accept, p)
  | fuel + 1, p, pos =>
    if pos + 2 ≤ stop then
      let type := p.buf pos
      let len := (p.buf (pos + 1)).toNat + 2
      if pos + len > stop then (.error, p)
      else if type = 0 then optionsLoop ext stop fuel p (pos + 1)
      else if type = 1 then optionsLoop ext stop fuel p (pos + len)
      else if type = uipExtHdrOptRpl then
        if (rplExtHeaderHbhUpdate selectDag p.rpl p.buf ext pos).1 = .accept then
          optionsLoop ext stop fuel (p.visit selectDag ext pos) (pos + len)
        else (.drop, p.visit selectDag ext pos)
      else if type &&& 0xC0 = 0 then optionsLoop ext stop fuel p (pos + len)
      else if type &&& 0xC0 = 0x40 then (.drop, p)
      else if type &&& 0xC0 = 0xC0 ∧ p.toMcast then (.drop, p)
      else (.error, p)
    else (.accept, p)

section

variable (p : Processing)

/-- `ext_hdr_options_process` -/
def extHdrOptionsProcess (ext : ℕ) : OptionsResult × Processing :=
  optionsLoop selectDag ext (extEnd p.buf ext) (extEnd p.buf ext) p (ext + 2)

/-- A padding option, an RPL option that is acceptable, or an unknown one to skip over. -/
def ValidOption (ext i : ℕ) : Prop :=
  p.buf i = 0 ∨ p.buf i = 1 ∨
    p.buf i = uipExtHdrOptRpl ∧ RplAcceptable selectDag p.rpl p.buf ext i ∨
    p.buf i &&& 0xC0 = 0

/-- A header is accepted exactly if valid options fill it. -/
def HeaderRight (ext : ℕ) : Prop :=
  (extHdrOptionsProcess selectDag p ext).1 = .accept ↔
    Tiled (ValidOption selectDag p ext) p.buf (extEnd p.buf ext) (ext + 2)

/-- A valid option that is short enough if the byte behind it is its length. -/
def ShortOption (ext i : ℕ) : Prop :=
  ValidOption selectDag p ext i ∧ i + ((p.buf (i + 1)).toNat + 2) ≤ extEnd p.buf ext

/-- In a header that valid options fill, no padding byte stands in front of a byte that is greater
than what is left behind it; and if such options leave one byte of a header, it is a padding byte. -/
structure HeaderCond (ext : ℕ) : Prop where
  padding : Tiled (ValidOption selectDag p ext) p.buf (extEnd p.buf ext) (ext + 2) →
    ∀ i, Tiled (ValidOption selectDag p ext) p.buf i (ext + 2) → p.buf i = 0 →
      i + 2 ≤ extEnd p.buf ext → i + ((p.buf (i + 1)).toNat + 2) ≤ extEnd p.buf ext
  last : Tiled (ShortOption selectDag p ext) p.buf (extEnd p.buf ext - 1) (ext + 2) →
    p.buf (extEnd p.buf ext - 1) = 0

end

variable {selectDag} {p : Processing} {ext pos stop fuel : ℕ}

/-- What the loop may leave behind: the packet as it was, or one option that was given to the routing
protocol. -/
def Leaves (p : Processing) (ext pos : ℕ) (result : OptionsResult × Processing) : Prop :=
  (result.1 = .accept ∧
    (Tiled (ShortOption selectDag p ext) p.buf (extEnd p.buf ext) pos ∨
      Tiled (ShortOption selectDag p ext) p.buf (extEnd p.buf ext - 1) pos) ∧
    (result.2 = p ∨ RplAcceptable selectDag p.rpl p.buf ext (ext + 2) ∧ pos = ext + 2 ∧
      result.2 = p.visit selectDag ext (ext + 2))) ∨
  (result.1 ≠ .accept ∧
    ¬ (Tiled (ShortOption selectDag p ext) p.buf (extEnd p.buf ext) pos ∨
      Tiled (ShortOption selectDag p ext) p.buf (extEnd p.buf ext - 1) pos) ∧
    (result.2 = p ∨ ∃ i, pos ≤ i ∧ i + 2 ≤ extEnd p.buf ext ∧
      ¬ RplAcceptable selectDag p.rpl p.buf ext i ∧ result.2 = p.visit selectDag ext i))

/-- In front of the last byte there is a short option, and what is behind it. -/
theorem short_iff (h : pos + 2 ≤ extEnd p.buf ext) :
    (Tiled (ShortOption selectDag p ext) p.buf (extEnd p.buf ext) pos ∨
      Tiled (ShortOption selectDag p ext) p.buf (extEnd p.buf ext - 1) pos) ↔
    ShortOption selectDag p ext pos ∧
      (Tiled (ShortOption selectDag p ext) p.buf (extEnd p.buf ext) (pos + optLen p.buf pos) ∨
        Tiled (ShortOption selectDag p ext) p.buf (extEnd p.buf ext - 1)
          (pos + optLen p.buf pos)) := by
  have hend : pos < extEnd p.buf ext := by omega
  have hlast : pos < extEnd p.buf ext - 1 := by omega
  rw [tiled_iff_of_lt hend, tiled_iff_of_lt hlast, and_or_left]

/-- An option that is skipped over. -/
theorem Leaves.skip {result : OptionsResult × Processing} (h : pos + 2 ≤ extEnd p.buf ext)
    (hshort : ShortOption selectDag p ext pos)
    (hleaves : @Leaves selectDag p ext (pos + optLen p.buf pos) result)
    (hpos : ext + 2 ≤ pos) : @Leaves selectDag p ext pos result := by
  rw [Leaves, short_iff h]
  have hlen := @optLen_pos p.buf pos
  rcases hleaves with ⟨hresult, htiled, hleft⟩ | ⟨hresult, htiled, hleft⟩
  · refine .inl ⟨hresult, ⟨hshort, htiled⟩, ?_⟩
    rcases hleft with hleft | ⟨_, hfirst, _⟩
    · exact .inl hleft
    · omega
  · refine .inr ⟨hresult, fun h => htiled h.2, ?_⟩
    rcases hleft with hleft | ⟨i, hi, hleft⟩
    · exact .inl hleft
    · exact .inr ⟨i, by omega, hleft⟩

/-- An option at which the packet is discarded. -/
theorem Leaves.refuse {result : OptionsResult} (h : pos + 2 ≤ extEnd p.buf ext)
    (hresult : result ≠ .accept) (hshort : ¬ ShortOption selectDag p ext pos) :
    @Leaves selectDag p ext pos (result, p) := by
  rw [Leaves, short_iff h]
  exact .inr ⟨hresult, fun h => hshort h.1, .inl rfl⟩

theorem Leaves.finish (h : ¬ pos + 2 ≤ extEnd p.buf ext) (hpos : pos ≤ extEnd p.buf ext) :
    @Leaves selectDag p ext pos (.accept, p) := by
  refine .inl ⟨rfl, ?_, .inl rfl⟩
  rcases Nat.lt_or_ge pos (extEnd p.buf ext) with hlt | hge
  · right
    have hstop : extEnd p.buf ext - 1 = pos := by omega
    rw [hstop]
    exact .done
  · left
    have hstop : extEnd p.buf ext = pos := by omega
    rw [hstop]
    exact .done

theorem optionsLoop_of_end (h : ¬ pos + 2 ≤ stop) :
    optionsLoop selectDag ext stop fuel p pos = (.accept, p) := by
  cases fuel with
  | zero => rfl
  | succ fuel => rw [optionsLoop, if_neg h]

/-- **What the loop leaves behind.** An RPL option that is acceptable is the only one of its
header. -/
theorem optionsLoop_leaves : ∀ (fuel pos : ℕ), extEnd p.buf ext ≤ fuel + pos → ext + 2 ≤ pos →
    pos ≤ extEnd p.buf ext →
    @Leaves selectDag p ext pos (optionsLoop selectDag ext (extEnd p.buf ext) fuel p pos) := by
  intro fuel
  induction fuel with
  | zero =>
    intro pos hfuel hpos hle
    exact .finish (by omega) hle
  | succ fuel ih =>
    intro pos hfuel hpos hle
    rw [optionsLoop]
    by_cases hroom : pos + 2 ≤ extEnd p.buf ext
    · rw [if_pos hroom]
      by_cases hlong : pos + ((p.buf (pos + 1)).toNat + 2) > extEnd p.buf ext
      · simp only [if_pos hlong]
        exact .refuse hroom OptionsResult.noConfusion fun h => absurd h.2 (Nat.not_le.mpr hlong)
      · simp only [if_neg hlong]
        have hfits := Nat.not_lt.mp hlong
        by_cases hpad1 : p.buf pos = 0
        · rw [if_pos hpad1]
          have hlen : optLen p.buf pos = 1 := if_pos hpad1
          refine .skip hroom ⟨.inl hpad1, hfits⟩ ?_ hpos
          rw [hlen]
          exact ih (pos + 1) (by omega) (by omega) (by omega)
        · have hlen : optLen p.buf pos = (p.buf (pos + 1)).toNat + 2 := by
            rw [optLen_of_ne_zero hpad1, Nat.add_comm]
          -- an option with a length byte that is skipped over
          have hskip : ValidOption selectDag p ext pos → @Leaves selectDag p ext pos
              (optionsLoop selectDag ext (extEnd p.buf ext) fuel p
                (pos + ((p.buf (pos + 1)).toNat + 2))) := by
            intro hvalid
            refine .skip hroom ⟨hvalid, hfits⟩ ?_ hpos
            rw [hlen]
            exact ih _ (by omega) (by omega) hfits
          rw [if_neg hpad1]
          by_cases hpadN : p.buf pos = 1
          · rw [if_pos hpadN]
            exact hskip (.inr (.inl hpadN))
          · rw [if_neg hpadN]
            by_cases hrpl : p.buf pos = uipExtHdrOptRpl
            · rw [if_pos hrpl]
              by_cases hok : RplAcceptable selectDag p.rpl p.buf ext pos
              · rw [if_pos (rplExtHeaderHbhUpdate_accept.mpr hok)]
                -- the option fills its header
                have hheader : extEnd p.buf ext = ext + 8 := by
                  rw [extEnd, hok.1]
                  rfl
                have hsize : (p.buf (pos + 1)).toNat = 4 := by
                  rw [hok.2.2.1]
                  rfl
                rw [hsize] at hfits hlen ⊢
                obtain rfl : pos = ext + 2 := by omega
                rw [optionsLoop_of_end (by omega)]
                refine .inl ⟨rfl, .inl ?_, .inr ⟨hok, rfl, rfl⟩⟩
                rw [tiled_iff_of_lt (by omega), hlen, hheader]
                refine ⟨⟨.inr (.inr (.inl ⟨hrpl, hok⟩)), ?_⟩, .done⟩
                rw [hsize]
                exact hfits
              · rw [if_neg fun h => hok (rplExtHeaderHbhUpdate_accept.mp h)]
                rw [Leaves, short_iff hroom]
                refine .inr ⟨OptionsResult.noConfusion, fun h => ?_,
                  .inr ⟨pos, Nat.le_refl _, hroom, hok, rfl⟩⟩
                rcases h.1.1 with h | h | ⟨_, h⟩ | h
                · exact hpad1 h
                · exact hpadN h
                · exact hok h
                · rw [hrpl] at h
                  exact absurd h (by decide)
            · rw [if_neg hrpl]
              by_cases hskipped : p.buf pos &&& 0xC0 = 0
              · rw [if_pos hskipped]
                exact hskip (.inr (.inr (.inr hskipped)))
              · have hbad : ¬ ShortOption selectDag p ext pos := by
                  rintro ⟨h | h | ⟨h, _⟩ | h, _⟩
                  · exact hpad1 h
                  · exact hpadN h
                  · exact hrpl h
                  · exact hskipped h
                rw [if_neg hskipped]
                split
                · exact .refuse hroom OptionsResult.noConfusion hbad
                · split
                  · exact .refuse hroom OptionsResult.noConfusion hbad
                  · exact .refuse hroom OptionsResult.noConfusion hbad
    · rw [if_neg hroom]
      exact .finish hroom hle

theorem extHdrOptionsProcess_leaves (p : Processing) (ext : ℕ) :
    @Leaves selectDag p ext (ext + 2) (extHdrOptionsProcess selectDag p ext) :=
  optionsLoop_leaves _ _ (Nat.le_add_right _ _) (Nat.le_refl _) (by rw [extEnd]; omega)

theorem extHdrOptionsProcess_accept (p : Processing) (ext : ℕ) :
    (extHdrOptionsProcess selectDag p ext).1 = .accept ↔
      Tiled (ShortOption selectDag p ext) p.buf (extEnd p.buf ext) (ext + 2) ∨
        Tiled (ShortOption selectDag p ext) p.buf (extEnd p.buf ext - 1) (ext + 2) := by
  rcases @extHdrOptionsProcess_leaves selectDag p ext with ⟨hresult, htiled, _⟩ |
    ⟨hresult, htiled, _⟩
  · exact iff_of_true hresult htiled
  · exact iff_of_false hresult htiled

/-- The options are short enough as long as there are two bytes. -/
theorem short_of_valid {start : ℕ}
    (hpadding : ∀ i, Tiled (ValidOption selectDag p ext) p.buf i start → p.buf i = 0 →
      i + 2 ≤ extEnd p.buf ext → i + ((p.buf (i + 1)).toNat + 2) ≤ extEnd p.buf ext)
    (h : Tiled (ValidOption selectDag p ext) p.buf (extEnd p.buf ext) pos)
    (hstart : Tiled (ValidOption selectDag p ext) p.buf pos start) :
    Tiled (ShortOption selectDag p ext) p.buf (extEnd p.buf ext) pos ∨
      Tiled (ShortOption selectDag p ext) p.buf (extEnd p.buf ext - 1) pos := by
  induction h with
  | done => exact .inl .done
  | @step pos hle hvalid hrest ih =>
    have hlen := @optLen_pos p.buf pos
    by_cases hroom : pos + 2 ≤ extEnd p.buf ext
    · rw [short_iff hroom]
      refine ⟨⟨hvalid, ?_⟩, ih (hstart.trans (.step (Nat.le_refl _) hvalid .done))⟩
      by_cases hpad1 : p.buf pos = 0
      · exact hpadding pos hstart hpad1 hroom
      · rw [optLen_of_ne_zero hpad1] at hle
        omega
    · right
      have hlast : extEnd p.buf ext - 1 = pos := by omega
      rw [hlast]
      exact .done

/-- **A header is judged right** exactly under the condition. -/
theorem headerRight_iff (p : Processing) (ext : ℕ) :
    HeaderRight selectDag p ext ↔ HeaderCond selectDag p ext := by
  have hend : ext + 8 ≤ extEnd p.buf ext := by
    rw [extEnd]
    omega
  rw [HeaderRight, extHdrOptionsProcess_accept]
  constructor
  · intro hright
    constructor
    · intro htiled i hfront hpad1 hroom
      rcases hright.mpr htiled with hshort | hshort
      · have hrest := hfront.from hshort (by omega)
        rw [tiled_iff_of_lt (by omega)] at hrest
        exact hrest.1.2
      · have hrest := hfront.from hshort (by omega)
        rw [tiled_iff_of_lt (by omega)] at hrest
        exact hrest.1.2
    · intro hshort
      have hrest := hshort.from (hright.mp (.inr hshort)) (by omega)
      rw [tiled_iff_of_lt (by omega)] at hrest
      have hle := hrest.2.le
      by_contra hne
      rw [optLen_of_ne_zero hne] at hle
      omega
  · intro hcond
    constructor
    · rintro (hshort | hshort)
      · exact hshort.imp fun _ h => h.1
      · have hpad1 := hcond.last hshort
        have hlen : optLen p.buf (extEnd p.buf ext - 1) = 1 := if_pos hpad1
        refine (hshort.imp fun _ h => h.1).trans ?_
        rw [tiled_iff_of_lt (by omega), hlen, Nat.sub_add_cancel (by omega)]
        exact ⟨.inl hpad1, .done⟩
    · intro htiled
      exact short_of_valid (hcond.padding htiled) htiled .done

/-! ## One header -/

/-- Nothing but the flags of the option is changed of the packet. -/
theorem visit_buf {i j : ℕ} (h : j ≠ i + 2) : (p.visit selectDag ext i).buf j = p.buf j :=
  rplExtHeaderHbhUpdate_buf h

/-- A visit of a header: of a packet that is dropped for a rank error, the flag was set. -/
structure VisitOf (p : Processing) (ext : ℕ) (v : Visit) : Prop where
  after : ext + 2 ≤ v.pos
  before : v.pos + 2 ≤ extEnd p.buf ext
  flag : v.verdict = .rankError → p.buf (v.pos + 2) &&& rplHdrOptRankErr ≠ 0

/-- **What a header does**: there is one visit at most, and if the header is accepted, the packet is
as it was outside of the options. -/
theorem extHdrOptionsProcess_spec (p : Processing) (ext : ℕ) :
    ∃ visits, (extHdrOptionsProcess selectDag p ext).2.visits = p.visits ++ visits ∧
      (visits = [] ∨ ∃ v, visits = [v] ∧ VisitOf p ext v) ∧
      ((extHdrOptionsProcess selectDag p ext).1 = .accept →
        ∀ j, j < ext + 2 ∨ extEnd p.buf ext ≤ j →
          (extHdrOptionsProcess selectDag p ext).2.buf j = p.buf j) := by
  have hend : ext + 8 ≤ extEnd p.buf ext := by
    rw [extEnd]
    omega
  rcases @extHdrOptionsProcess_leaves selectDag p ext with ⟨_, _, hleft⟩ | ⟨hresult, _, hleft⟩
  · rcases hleft with hleft | ⟨hok, _, hleft⟩
    · rw [hleft]
      exact ⟨[], (append_nil _).symm, .inl rfl, fun _ _ _ => rfl⟩
    · rw [hleft]
      have hbefore : ext + 2 + 2 ≤ extEnd p.buf ext := by omega
      refine ⟨_, rfl, .inr ⟨_, rfl, Nat.le_refl _, hbefore, flag_of_rankError⟩, ?_⟩
      intro _ j hj
      exact visit_buf (by omega)
  · rcases hleft with hleft | ⟨i, hafter, hbefore, _, hleft⟩
    · rw [hleft]
      exact ⟨[], (append_nil _).symm, .inl rfl, fun _ _ _ => rfl⟩
    · rw [hleft]
      exact ⟨_, rfl, .inr ⟨_, rfl, hafter, hbefore, flag_of_rankError⟩,
        fun h => absurd h hresult⟩

/-- **A header with the RPL option** is that option. -/
theorem extHdrOptionsProcess_rpl (hlen : p.buf (ext + 1) = 0)
    (htype : p.buf (ext + 2) = uipExtHdrOptRpl) (hopt : p.buf (ext + 3) = 4) :
    (extHdrOptionsProcess selectDag p ext).2 = p.visit selectDag ext (ext + 2) ∧
      ((extHdrOptionsProcess selectDag p ext).1 = .accept ↔
        RplAcceptable selectDag p.rpl p.buf ext (ext + 2)) := by
  have hend : extEnd p.buf ext = ext + 8 := by
    rw [extEnd, hlen]
    rfl
  have hsize : (p.buf (ext + 2 + 1)).toNat = 4 := by
    rw [hopt]
    rfl
  have hnotPad : uipExtHdrOptRpl ≠ 0 ∧ uipExtHdrOptRpl ≠ 1 := by decide
  obtain ⟨fuel, hfuel⟩ : ∃ fuel, extEnd p.buf ext = fuel + 1 := ⟨ext + 7, hend⟩
  rw [extHdrOptionsProcess, hfuel, optionsLoop, ← hfuel, hend, if_pos (by omega)]
  simp only [hsize, htype]
  rw [if_neg (by omega), if_neg hnotPad.1, if_neg hnotPad.2, if_pos trivial]
  by_cases hok : RplAcceptable selectDag p.rpl p.buf ext (ext + 2)
  · rw [if_pos (rplExtHeaderHbhUpdate_accept.mpr hok), optionsLoop_of_end (by omega)]
    exact ⟨rfl, iff_of_true rfl hok⟩
  · rw [if_neg fun h => hok (rplExtHeaderHbhUpdate_accept.mp h)]
    exact ⟨rfl, iff_of_false OptionsResult.noConfusion hok⟩

/-- An RPL option of a header that is accepted is acceptable, and it is the only option. -/
theorem rpl_of_accept (haccept : (extHdrOptionsProcess selectDag p ext).1 = .accept) {i : ℕ}
    (hfront : Tiled (ValidOption selectDag p ext) p.buf i (ext + 2))
    (hroom : i + 2 ≤ extEnd p.buf ext) (htype : p.buf i = uipExtHdrOptRpl) :
    i = ext + 2 ∧ RplAcceptable selectDag p.rpl p.buf ext (ext + 2) := by
  have hshort : ShortOption selectDag p ext i := by
    rcases (extHdrOptionsProcess_accept p ext).mp haccept with hshort | hshort
    · have hrest := hfront.from hshort (by omega)
      rw [tiled_iff_of_lt (by omega)] at hrest
      exact hrest.1
    · have hrest := hfront.from hshort (by omega)
      rw [tiled_iff_of_lt (by omega)] at hrest
      exact hrest.1
  have hok : RplAcceptable selectDag p.rpl p.buf ext i := by
    rcases hshort.1 with h | h | ⟨_, h⟩ | h
    · rw [htype] at h
      exact absurd h (by decide)
    · rw [htype] at h
      exact absurd h (by decide)
    · exact h
    · rw [htype] at h
      exact absurd h (by decide)
  have hend : extEnd p.buf ext = ext + 8 := by
    rw [extEnd, hok.1]
    rfl
  have hsize : (p.buf (i + 1)).toNat = 4 := by
    rw [hok.2.2.1]
    rfl
  have hle := hfront.le
  have hfits := hshort.2
  obtain rfl : i = ext + 2 := by omega
  exact ⟨rfl, hok⟩

end Options

/-! ## The extension headers of a packet -/

/-- The addresses of the node and what is on its links, whether `ext_header_srh_update` forwards a
packet, and `UIP_LINK_MTU`. -/
structure HeaderEnv where
  mine : UipIpaddr → Bool
  onlink : UipIpaddr → Bool
  srhUpdate : (ℕ → Byte) → Bool
  linkMtu : ℕ

/-- Where `uip_process` goes from the headers: `drop`, to `send` with an error or with the packet, or
to the upper layer. -/
inductive HeadersVerdict
  | drop | error | forward
  | upper (protocol : Byte) (pos : ℕ)
deriving DecidableEq, Repr

/-- An address in the header of the packet. -/
def addrAt (buf : ℕ → Byte) (pos : ℕ) : UipIpaddr := ⟨bytesAt buf pos 16, length_bytesAt _ _ _⟩

/-- `uip_is_addr_linklocal` -/
def isAddrLinklocal (addr : UipIpaddr) : Bool := addr.1.take 2 = [0xFE, 0x80]

/-- `uip_is_addr_loopback` -/
def isAddrLoopback (addr : UipIpaddr) : Bool := addr.1 = List.replicate 15 0 ++ [1]

/-- `uip_check_mtu` and `uip_update_ttl`, in front of forwarding. -/
def checkedForward (env : HeaderEnv) (buf : ℕ → Byte) (len : ℕ) : HeadersVerdict :=
  if len > env.linkMtu ∨ (buf 7).toNat ≤ 1 then .error else .forward

/-- A packet that is not for the node. -/
def notMine (env : HeaderEnv) (buf : ℕ → Byte) (len : ℕ) : HeadersVerdict :=
  let src := addrAt buf 8
  let dest := addrAt buf 24
  if !isAddrMcast dest && !isAddrLinklocal dest && !isAddrLinklocal src && !isAddrUnspecified src &&
      !isAddrLoopback dest then checkedForward env buf len
  else if isAddrLinklocal src && !isAddrUnspecified src && !isAddrLoopback dest &&
      !isAddrMcast dest && !env.onlink dest then .error
  else .drop

/-- `uip_ext_bitmap` -/
structure ExtBitmap where
  hbho : Bool
  desto : ℕ
  routing : Bool

section Process

variable (selectDag : HbhDag → BitVec 16 → HbhDag) (env : HeaderEnv) (len : ℕ)

/-- The options of a header, and how it goes on if they are accepted. -/
def withOptions (p : Processing) (pos : ℕ) (next : Processing → HeadersVerdict × Processing) :
    HeadersVerdict × Processing :=
  let processed := extHdrOptionsProcess selectDag p pos
  match processed.1 with
  | .accept => next processed.2
  | .drop => (.drop, processed.2)
  | .error => (.error, processed.2)

/-- The loop over the extension headers; a header has eight bytes at least, so it ends before the
packet does. -/
def headersLoop : ℕ → ExtBitmap → Processing → Byte × Option ℕ → HeadersVerdict × Processing
  | 0, _, p, _ => (.drop, p)
  | _ + 1, _, p, (_, none) => (.error, p)
  | fuel + 1, seen, p, (protocol, some pos) =>
    if !uipIsProtoExtHdr protocol then (.upper protocol pos, p)
    else if protocol = 0 then
      if seen.hbho then (.error, p)
      else
        withOptions selectDag p pos fun p =>
          headersLoop fuel { seen with hbho := true } p
            (uipbufGetNextHeader p.buf pos (len - pos) false)
    else if protocol = 60 then
      if seen.desto = 2 then (.error, p)
      else
        withOptions selectDag p pos fun p =>
          headersLoop fuel { seen with desto := seen.desto + 1 } p
            (uipbufGetNextHeader p.buf pos (len - pos) false)
    else if protocol = uipProtoRouting then
      if seen.routing then (.error, p)
      else if p.buf (pos + 3) ≠ 0 then
        if env.srhUpdate p.buf then (checkedForward env p.buf len, p) else (.error, p)
      else
        headersLoop fuel { seen with routing := true } p
          (uipbufGetNextHeader p.buf pos (len - pos) false)
    -- there is no reassembly, and nothing behind a header that says so
    else if protocol = 44 ∨ protocol = 59 then (.drop, p)
    else (.error, p)

/-- The extension headers in `uip_process` of a router: the hop-by-hop header, and all of them if the
packet is for the node. -/
def uipProcessHeaders (p : Processing) : HeadersVerdict × Processing :=
  let next (p : Processing) :=
    if env.mine (addrAt p.buf 24) then
      headersLoop selectDag env len len ⟨false, 0, false⟩ p (uipbufGetNextHeader p.buf 0 len true)
    else (notMine env p.buf len, p)
  match uipbufGetNextHeader p.buf 0 len true with
  | (protocol, some pos) => if protocol = 0 then withOptions selectDag p pos next else next p
  | (_, none) => next p

/-- The hop-by-hop header is the first one. -/
def HbhoFirst (p : Processing) : Prop := uipbufGetNextHeader p.buf 0 len true = (0, some 40)

/-- Each RPL option is processed once at most, and exactly once if the packet is not discarded and
the option is in the hop-by-hop header; a packet is dropped for a rank error only if the flag was set
when it came. -/
structure OptionsRight (p : Processing) : Prop where
  once : ((uipProcessHeaders selectDag env len p).2.visits.map Visit.pos).Nodup
  processed : (uipProcessHeaders selectDag env len p).1 ≠ .drop →
    (uipProcessHeaders selectDag env len p).1 ≠ .error → HbhoFirst len p →
    ∀ i, Tiled (ValidOption selectDag p 40) p.buf i 42 → i + 2 ≤ extEnd p.buf 40 →
      p.buf i = uipExtHdrOptRpl → i ∈ (uipProcessHeaders selectDag env len p).2.visits.map Visit.pos
  flag : ∀ v ∈ (uipProcessHeaders selectDag env len p).2.visits, v.verdict = .rankError →
    p.buf (v.pos + 2) &&& rplHdrOptRankErr ≠ 0

/-- The packet is for the node, and there is an RPL option in its hop-by-hop header for which it goes
on. -/
def ProcessedTwice (p : Processing) : Prop :=
  HbhoFirst len p ∧ RplAcceptable selectDag p.rpl p.buf 40 42 ∧ env.mine (addrAt p.buf 24) = true

variable {selectDag} {env} {len} {p : Processing}

/-- What is visited of the headers from one on, while the packet from there on is as it came. -/
structure Visits (buf : ℕ → Byte) (pos : ℕ) (visits : List Visit) : Prop where
  nodup : (visits.map Visit.pos).Nodup
  le : ∀ v ∈ visits, pos ≤ v.pos
  flag : ∀ v ∈ visits, v.verdict = .rankError → buf (v.pos + 2) &&& rplHdrOptRankErr ≠ 0

theorem visits_nil (buf : ℕ → Byte) (pos : ℕ) : Visits buf pos [] :=
  ⟨nodup_nil, fun _ h => absurd h not_mem_nil, fun _ h => absurd h not_mem_nil⟩

/-- The visit of a header, and what is visited behind it. -/
theorem VisitOf.cons {buf : ℕ → Byte} {ext : ℕ} {v : Visit} {visits : List Visit}
    (h : VisitOf p ext v) (hbuf : p.buf (v.pos + 2) = buf (v.pos + 2))
    (hrest : Visits buf (extEnd p.buf ext) visits) : Visits buf ext (v :: visits) := by
  have hafter := h.after
  have hbefore := h.before
  constructor
  · rw [map_cons, nodup_cons]
    refine ⟨fun hmem => ?_, hrest.nodup⟩
    obtain ⟨w, hw, hpos⟩ := mem_map.mp hmem
    have hle := hrest.le w hw
    omega
  · intro w hw
    rcases mem_cons.mp hw with rfl | hw
    · omega
    · have hle := hrest.le w hw
      omega
  · intro w hw
    rcases mem_cons.mp hw with rfl | hw
    · rw [← hbuf]
      exact h.flag
    · exact hrest.flag w hw

/-- **A header and what is behind it.** -/
theorem withOptions_visits {buf : ℕ → Byte} {pos : ℕ}
    {next : Processing → HeadersVerdict × Processing} (hbuf : ∀ j, pos ≤ j → p.buf j = buf j)
    (hnext : ∀ q : Processing, (∀ j, extEnd p.buf pos ≤ j → q.buf j = buf j) →
      q.buf (pos + 1) = p.buf (pos + 1) →
      ∃ visits, (next q).2.visits = q.visits ++ visits ∧ Visits buf (extEnd p.buf pos) visits) :
    ∃ visits, (withOptions selectDag p pos next).2.visits = p.visits ++ visits ∧
      Visits buf pos visits := by
  obtain ⟨visits, hvisits, hone, haccept⟩ := @extHdrOptionsProcess_spec selectDag p pos
  have hend : pos + 8 ≤ extEnd p.buf pos := by
    rw [extEnd]
    omega
  -- what the header has visited, with what is visited behind it
  have hjoin : ∀ rest, Visits buf (extEnd p.buf pos) rest → Visits buf pos (visits ++ rest) := by
    intro rest hrest
    rcases hone with rfl | ⟨v, rfl, hv⟩
    · exact ⟨hrest.nodup, fun w hw => (Nat.le_add_right pos 8).trans (hend.trans (hrest.le w hw)),
        hrest.flag⟩
    · have hafter := hv.after
      exact hv.cons (hbuf _ (by omega)) hrest
  rw [withOptions]
  cases hresult : (extHdrOptionsProcess selectDag p pos).1 with
  | accept =>
    obtain ⟨rest, hrest, hgood⟩ := hnext (extHdrOptionsProcess selectDag p pos).2
      (fun j hj => (haccept hresult j (.inr hj)).trans (hbuf j (by omega)))
      (haccept hresult (pos + 1) (.inl (by omega)))
    refine ⟨visits ++ rest, ?_, hjoin rest hgood⟩
    rw [← append_assoc, ← hvisits]
    exact hrest
  | drop =>
    refine ⟨visits, hvisits, ?_⟩
    have hall := hjoin [] (visits_nil _ _)
    rwa [append_nil] at hall
  | error =>
    refine ⟨visits, hvisits, ?_⟩
    have hall := hjoin [] (visits_nil _ _)
    rwa [append_nil] at hall

/-- **The loop** visits options one behind the other. -/
theorem headersLoop_visits (buf : ℕ → Byte) : ∀ (fuel : ℕ) (seen : ExtBitmap) (p : Processing)
    (next : Byte × Option ℕ) (low : ℕ), (∀ pos, next.2 = some pos → low ≤ pos) →
    (∀ j, low ≤ j → p.buf j = buf j) →
    ∃ visits, (headersLoop selectDag env len fuel seen p next).2.visits = p.visits ++ visits ∧
      Visits buf low visits := by
  intro fuel
  induction fuel with
  | zero =>
    intro seen p next low _ _
    exact ⟨[], (append_nil _).symm, visits_nil _ _⟩
  | succ fuel ih =>
    rintro seen p ⟨protocol, found⟩ low hlow hbuf
    cases found with
    | none => exact ⟨[], (append_nil _).symm, visits_nil _ _⟩
    | some pos =>
      have hpos := hlow pos rfl
      have hstay : ∀ verdict : HeadersVerdict, ∃ visits,
          ((verdict, p) : HeadersVerdict × Processing).2.visits = p.visits ++ visits ∧
            Visits buf low visits :=
        fun _ => ⟨[], (append_nil _).symm, visits_nil _ _⟩
      -- a header of options, and the loop behind it
      have hoptions : ∀ seen', ∃ visits, (withOptions selectDag p pos fun p =>
          headersLoop selectDag env len fuel seen' p
            (uipbufGetNextHeader p.buf pos (len - pos) false)).2.visits = p.visits ++ visits ∧
            Visits buf low visits := by
        intro seen'
        obtain ⟨visits, hvisits, hgood⟩ := @withOptions_visits selectDag p buf pos _
          (fun j hj => hbuf j (hpos.trans hj)) fun q hq hlen =>
            ih seen' q (uipbufGetNextHeader q.buf pos (len - pos) false) (extEnd p.buf pos)
              (fun pos' hpos' => by
                have hspec := (getNextHeader_spec (Prod.ext rfl hpos')).1
                rw [if_neg Bool.false_ne_true, hlen] at hspec
                exact Nat.le_of_eq hspec.symm) hq
        exact ⟨visits, hvisits, hgood.nodup, fun v hv => hpos.trans (hgood.le v hv), hgood.flag⟩
      rw [headersLoop]
      split_ifs
      · exact hstay _
      · exact hstay _
      · exact hoptions _
      · exact hstay _
      · exact hoptions _
      · exact hstay _
      · exact hstay _
      · exact hstay _
      · refine ih _ p _ low (fun pos' hpos' => ?_) hbuf
        have hspec := (next_spec (Prod.ext rfl hpos')).1
        omega
      · exact hstay _
      · exact hstay _

/-- What comes behind the hop-by-hop header. -/
def afterHbho (selectDag : HbhDag → BitVec 16 → HbhDag) (env : HeaderEnv) (len : ℕ)
    (p : Processing) : HeadersVerdict × Processing :=
  if env.mine (addrAt p.buf 24) then
    headersLoop selectDag env len len ⟨false, 0, false⟩ p (uipbufGetNextHeader p.buf 0 len true)
  else (notMine env p.buf len, p)

theorem uipProcessHeaders_of_hbho (h : HbhoFirst len p) :
    uipProcessHeaders selectDag env len p =
      withOptions selectDag p 40 (afterHbho selectDag env len) := by
  rw [uipProcessHeaders, h]
  rfl

theorem uipProcessHeaders_of_other (h : ¬ HbhoFirst len p) :
    uipProcessHeaders selectDag env len p = afterHbho selectDag env len p := by
  rw [uipProcessHeaders]
  rcases hfirst : uipbufGetNextHeader p.buf 0 len true with ⟨protocol, _ | pos⟩
  · rfl
  · have hpos := (first_spec hfirst).1
    have hprotocol : protocol ≠ 0 := by
      rintro rfl
      rw [hpos] at hfirst
      exact h hfirst
    simp only [if_neg hprotocol]
    rfl

/-- Behind the hop-by-hop header options are visited one behind the other. -/
theorem afterHbho_visits {buf : ℕ → Byte} (hbuf : ∀ j, 40 ≤ j → p.buf j = buf j) :
    ∃ visits, (afterHbho selectDag env len p).2.visits = p.visits ++ visits ∧
      Visits buf 40 visits := by
  rw [afterHbho]
  split
  · exact headersLoop_visits buf len _ p _ 40
      (fun pos hpos => Nat.le_of_eq (first_spec (Prod.ext rfl hpos)).1.symm) hbuf
  · exact ⟨[], (append_nil _).symm, visits_nil _ _⟩

theorem withOptions_of_accept {pos : ℕ} {next : Processing → HeadersVerdict × Processing}
    (h : (extHdrOptionsProcess selectDag p pos).1 = .accept) :
    withOptions selectDag p pos next = next (extHdrOptionsProcess selectDag p pos).2 := by
  rw [withOptions, h]

theorem withOptions_of_refuse {pos : ℕ} {next : Processing → HeadersVerdict × Processing}
    (h : (extHdrOptionsProcess selectDag p pos).1 ≠ .accept) :
    (withOptions selectDag p pos next).2 = (extHdrOptionsProcess selectDag p pos).2 ∧
      ((withOptions selectDag p pos next).1 = .drop ∨
        (withOptions selectDag p pos next).1 = .error) := by
  rw [withOptions]
  cases hresult : (extHdrOptionsProcess selectDag p pos).1 with
  | accept => exact absurd hresult h
  | drop => exact ⟨rfl, .inl rfl⟩
  | error => exact ⟨rfl, .inr rfl⟩

/-- What is visited is right if it is visited one behind the other. -/
theorem OptionsRight.of_visits {visits : List Visit}
    (hvisits : (uipProcessHeaders selectDag env len p).2.visits = visits)
    (hgood : Visits p.buf 40 visits)
    (hprocessed : (uipProcessHeaders selectDag env len p).1 ≠ .drop →
      (uipProcessHeaders selectDag env len p).1 ≠ .error → HbhoFirst len p →
      ∀ i, Tiled (ValidOption selectDag p 40) p.buf i 42 → i + 2 ≤ extEnd p.buf 40 →
        p.buf i = uipExtHdrOptRpl → i ∈ visits.map Visit.pos) :
    OptionsRight selectDag env len p := by
  subst hvisits
  exact ⟨hgood.nodup, hprocessed, hgood.flag⟩

/-- A packet that is not for the node, or has no RPL option for which it goes on. -/
theorem optionsRight_of_once (hvisits : p.visits = []) (h : ¬ ProcessedTwice selectDag env len p) :
    OptionsRight selectDag env len p := by
  obtain ⟨rest, hrest, hgood⟩ := @afterHbho_visits selectDag env len p p.buf fun _ _ => rfl
  rw [hvisits, nil_append] at hrest
  by_cases hfirst : HbhoFirst len p
  · have hrun := @uipProcessHeaders_of_hbho selectDag env len p hfirst
    by_cases hok : RplAcceptable selectDag p.rpl p.buf 40 42
    · -- the option is all there is in the header, and the packet is not for the node
      obtain ⟨hvisit, haccept⟩ := @extHdrOptionsProcess_rpl selectDag p 40 hok.1 hok.2.1 hok.2.2.1
      have haccept := haccept.mpr hok
      have hmine : ¬ env.mine (addrAt (p.visit selectDag 40 42).buf 24) = true := by
        have hdest : addrAt (p.visit selectDag 40 42).buf 24 = addrAt p.buf 24 :=
          Subtype.ext (bytesAt_congr fun j _ hj => visit_buf (by omega))
        rw [hdest]
        exact fun hmine => h ⟨hfirst, hok, hmine⟩
      rw [withOptions_of_accept haccept, hvisit, afterHbho, if_neg hmine] at hrun
      refine .of_visits (congrArg (fun run => run.2.visits) hrun) ?_ ?_
      · rw [Processing.visit, hvisits, nil_append, rplExtHeaderHbhUpdate_accept.mpr hok]
        refine ⟨nodup_singleton _, fun v hv => ?_, fun v hv herror => ?_⟩
        · rw [mem_singleton.mp hv]
          decide
        · rw [mem_singleton.mp hv] at herror
          cases herror
      · intro _ _ _ i hfront hroom htype
        obtain ⟨rfl, _⟩ := rpl_of_accept haccept hfront hroom htype
        rw [Processing.visit, hvisits, nil_append]
        exact mem_singleton.mpr rfl
    · by_cases haccept : (extHdrOptionsProcess selectDag p 40).1 = .accept
      · -- nothing is visited before the loop
        have hsame : (extHdrOptionsProcess selectDag p 40).2 = p := by
          rcases @extHdrOptionsProcess_leaves selectDag p 40 with ⟨_, _, hleft | ⟨hok', _⟩⟩ |
            ⟨hresult, _⟩
          · exact hleft
          · exact absurd hok' hok
          · exact absurd haccept hresult
        rw [withOptions_of_accept haccept, hsame] at hrun
        refine .of_visits ((congrArg (fun run => run.2.visits) hrun).trans hrest) hgood ?_
        intro _ _ _ i hfront hroom htype
        exact absurd (rpl_of_accept haccept hfront hroom htype).2 hok
      · obtain ⟨hleft, hverdict⟩ := @withOptions_of_refuse selectDag p 40
          (afterHbho selectDag env len) haccept
        obtain ⟨visits, hadded, hone, _⟩ := @extHdrOptionsProcess_spec selectDag p 40
        rw [hvisits, nil_append] at hadded
        rw [← hrun] at hleft hverdict
        refine .of_visits ((congrArg Processing.visits hleft).trans hadded) ?_ ?_
        · rcases hone with rfl | ⟨v, rfl, hv⟩
          · exact visits_nil _ _
          · exact hv.cons rfl (visits_nil _ _)
        · intro hdrop herror
          exact (hverdict.elim hdrop herror).elim
  · have hrun := @uipProcessHeaders_of_other selectDag env len p hfirst
    refine .of_visits ((congrArg (fun run => run.2.visits) hrun).trans hrest) hgood ?_
    exact fun _ _ hfirst' => absurd hfirst' hfirst

/-- **The RPL option is processed twice.** -/
theorem not_optionsRight_of_twice (hvisits : p.visits = [])
    (h : ProcessedTwice selectDag env len p) : ¬ OptionsRight selectDag env len p := by
  obtain ⟨hfirst, hok, hmine⟩ := h
  obtain ⟨hvisit, haccept⟩ := @extHdrOptionsProcess_rpl selectDag p 40 hok.1 hok.2.1 hok.2.2.1
  have haccept := haccept.mpr hok
  -- the second time the first header is the same
  have hbuf : ∀ j ≠ 44, (p.visit selectDag 40 42).buf j = p.buf j := fun j hj => visit_buf hj
  obtain ⟨hsecond, _⟩ := @extHdrOptionsProcess_rpl selectDag (p.visit selectDag 40 42) 40
    ((hbuf 41 (by decide)).trans hok.1) ((hbuf 42 (by decide)).trans hok.2.1)
    ((hbuf 43 (by decide)).trans hok.2.2.1)
  have hdest : addrAt (p.visit selectDag 40 42).buf 24 = addrAt p.buf 24 :=
    Subtype.ext (bytesAt_congr fun j _ hj => hbuf j (by omega))
  have hagain : uipbufGetNextHeader (p.visit selectDag 40 42).buf 0 len true = (0, some 40) := by
    refine Eq.trans ?_ hfirst
    rw [uipbufGetNextHeader, uipbufGetNextHeader]
    simp only [if_true, uipIphLen, Nat.zero_add, Nat.reduceAdd, hbuf 6 (by decide),
      hbuf 41 (by decide)]
  obtain ⟨fuel, rfl⟩ : ∃ fuel, len = fuel + 1 := ⟨len - 1, by have := (first_spec hfirst).2; omega⟩
  have hrun : uipProcessHeaders selectDag env (fuel + 1) p =
      withOptions selectDag (p.visit selectDag 40 42) 40 fun q =>
        headersLoop selectDag env (fuel + 1) fuel ⟨true, 0, false⟩ q
          (uipbufGetNextHeader q.buf 40 (fuel + 1 - 40) false) := by
    rw [uipProcessHeaders_of_hbho hfirst, withOptions_of_accept haccept, hvisit, afterHbho, hdest,
      if_pos hmine, hagain, headersLoop]
    rfl
  have hvisited : ∃ rest, (uipProcessHeaders selectDag env (fuel + 1) p).2.visits =
      ((p.visit selectDag 40 42).visit selectDag 40 42).visits ++ rest := by
    rw [hrun]
    by_cases hagainOk : (extHdrOptionsProcess selectDag (p.visit selectDag 40 42) 40).1 = .accept
    · rw [withOptions_of_accept hagainOk, hsecond]
      obtain ⟨rest, hrest, _⟩ := @headersLoop_visits selectDag env (fuel + 1)
        ((p.visit selectDag 40 42).visit selectDag 40 42).buf fuel ⟨true, 0, false⟩
        ((p.visit selectDag 40 42).visit selectDag 40 42)
        (uipbufGetNextHeader ((p.visit selectDag 40 42).visit selectDag 40 42).buf 40
          (fuel + 1 - 40) false) 0 (fun _ _ => Nat.zero_le _) fun _ _ => rfl
      exact ⟨rest, hrest⟩
    · rw [(withOptions_of_refuse hagainOk).1, hsecond]
      exact ⟨[], (append_nil _).symm⟩
  intro hright
  obtain ⟨rest, hrest⟩ := hvisited
  have hnodup := hright.once
  rw [hrest, Processing.visit, Processing.visit, hvisits] at hnodup
  simp at hnodup

end Process

/-! ## The theorem -/

/-- **Headers are judged right** exactly if no padding byte stands in front of a byte that is too
great for a length and no other byte stands alone at the end; and **the RPL option is processed
once** exactly if the packet is not for the node or has no such option for which it goes on. -/
theorem ext_hdr_options (selectDag : HbhDag → BitVec 16 → HbhDag) :
    (∀ p ext, HeaderRight selectDag p ext ↔ HeaderCond selectDag p ext) ∧
      ∀ env len buf rpl, OptionsRight selectDag env len ⟨buf, rpl, []⟩ ↔
        ¬ ProcessedTwice selectDag env len ⟨buf, rpl, []⟩ :=
  ⟨headerRight_iff, fun _ _ _ _ =>
    ⟨fun hright htwice => not_optionsRight_of_twice rfl htwice hright, optionsRight_of_once rfl⟩⟩

/-! ## Two headers -/

/-- Tables with an instance that is joined, of rank 256. -/
def joinedTables : RplTables where
  instances := fun _ => some ⟨true, false, true, 256⟩
  senderRank := none
  route := false
  dioResets := []
  unicastDios := []
  forwardErrors := 0
  loopErrors := 0
  loopWarnings := 0

/-- A header with a padding byte and an option of three bytes to skip over. -/
def paddedHeader : Processing where
  buf := fun i => ([17, 0, 0, 0x1E, 3, 0, 0, 0] : List Byte).getD i 0
  rpl := joinedTables
  visits := []

/-- A packet of UDP that goes up, from a node of rank 128. -/
def upwardPacket : ℕ → Byte := fun i =>
  ([0x60, 0, 0, 0, 0, 16, 0, 64] ++ List.replicate 32 0 ++ [17, 0, 0x63, 4, 0, 0, 0, 128]).getD i 0

/-- A node to which all packets are addressed. -/
def anyEnv : HeaderEnv := ⟨fun _ => true, fun _ => true, fun _ => false, 1280⟩

/-- The header is refused, though valid options fill it; and the packet is dropped for a rank error
that was noticed on this node only. -/
theorem ext_hdr_options_fails :
    ¬ HeaderRight (fun dag _ => dag) paddedHeader 0 ∧
      ¬ OptionsRight (fun dag _ => dag) anyEnv 56 ⟨upwardPacket, joinedTables, []⟩ ∧
      (uipProcessHeaders (fun dag _ => dag) anyEnv 56 ⟨upwardPacket, joinedTables, []⟩).1 = .drop ∧
      (uipProcessHeaders (fun dag _ => dag) anyEnv 56
        ⟨upwardPacket, joinedTables, []⟩).2.visits.map Visit.verdict = [.accept, .rankError] := by
  have hvisits : (uipProcessHeaders (fun dag _ => dag) anyEnv 56
      ⟨upwardPacket, joinedTables, []⟩).2.visits.map Visit.pos = [42, 42] := by
    decide +kernel
  refine ⟨fun hright => ?_, fun hright => ?_, by decide +kernel, by decide +kernel⟩
  · have hrefused : (extHdrOptionsProcess (fun dag _ => dag) paddedHeader 0).1 = .error := by
      decide +kernel
    have htiled : Tiled (ValidOption (fun dag _ => dag) paddedHeader 0) paddedHeader.buf 8 2 := by
      refine .step (by decide) (.inl rfl) (.step (by decide) (.inr (.inr (.inr (by decide)))) ?_)
      exact .done
    rw [HeaderRight, hrefused] at hright
    cases hright.mpr htiled
  · have honce := hright.once
    rw [hvisits] at honce
    exact absurd honce (by decide)

end Asap.Ipv6
