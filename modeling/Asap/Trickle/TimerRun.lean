import Asap.Trickle.Timer
import Mathlib.Data.List.Chain

/-!
# The law of trickle timers

As long as no reset comes from within the callback of the protocol, or while an event of the timer
is in the queue, every interval has one firing. A reset from within the callback sets the timer to
the point of the new interval, and the callback's return sets it to the end. With an event in the
queue, a reset gives the event the callback of the new interval, which it calls at once.

## Main definitions

* `Configured` — what a configuration that is accepted gives.
* `Law` — the intervals are as they should be.
* `Undisturbed` — a reset does not come at the wrong time.
-/

namespace Asap.Trickle

open Lib Sys List Nat
open BitVec (toNat_shiftLeft toNat_ofNat toNat_add)

variable {W : ℕ}

/-! ## Configuration -/

/-- What is known of a timer that has been configured. -/
structure Configured (iMin iMaxAbs : BitVec W) (k : BitVec 8) : Prop where
  two_le : 2 ≤ iMin.toNat
  le : iMin.toNat ≤ iMaxAbs.toNat
  le_half : iMaxAbs.toNat ≤ 2 ^ (W - 1)
  k_ne : k ≠ 0

theorem and_allOnes_shiftLeft (v : BitVec W) (k : ℕ) :
    v &&& BitVec.allOnes W <<< k = 0 ↔ v.toNat < 2 ^ k := by
  have h : v &&& BitVec.allOnes W <<< k = (v >>> k) <<< k := by
    ext i hi
    by_cases hk : i < k
    · simp [hk]
    · have hki : k + (i - k) = i := by omega
      have hle : k ≤ i := by omega
      have hlt : i - k < W := by omega
      simp [hi, hle, hlt, hki, BitVec.getElem_eq_testBit_toNat]
  have hnat : ((v >>> k) <<< k).toNat = v.toNat / 2 ^ k * 2 ^ k := by
    rw [toNat_shiftLeft, BitVec.toNat_ushiftRight, shiftRight_eq_div_pow,
      shiftLeft_eq]
    exact mod_eq_of_lt (Nat.lt_of_le_of_lt (div_mul_le_self _ _) v.isLt)
  rw [h, ← BitVec.toNat_inj, hnat, show (0 : BitVec W).toNat = 0 by simp, Nat.mul_eq_zero,
    Nat.div_eq_zero_iff]
  have := Nat.pow_pos (n := k) (show 0 < 2 by decide)
  omega
/-- A run of the loop over the top bits. -/
theorem maxImaxLoop_spec {j : ℕ} (fuel zeros : ℕ) (mask value : BitVec W) (hj : 2 ^ j ≤ W)
    (hfuel : j + 2 ≤ fuel) (hmask : mask <<< 2 ^ j = BitVec.allOnes W <<< (W - 2 ^ j)) :
    ∃ r, maxImaxLoop fuel (2 ^ j) mask value zeros = zeros + r ∧
      value.toNat * 2 ^ r < 2 ^ W ∧ (value.toNat < 2 ^ (W - 1) → 0 < r) ∧ r < 2 ^ (j + 1) := by
  induction j generalizing fuel zeros mask value with
  | zero =>
    obtain ⟨fuel, rfl⟩ : ∃ f, fuel = f + 2 := ⟨fuel - 2, by omega⟩
    rw [maxImaxLoop, if_neg (by decide), hmask]
    simp only [and_allOnes_shiftLeft]
    have hend : ∀ (mask value : BitVec W) zeros,
        maxImaxLoop (fuel + 1) (2 ^ 0 / 2) mask value zeros = zeros := by
      intro mask value zeros
      rw [maxImaxLoop, if_pos (by decide)]
    split
    · rename_i hlt
      refine ⟨1, hend _ _ _, ?_, fun _ => Nat.one_pos, by decide⟩
      have : 2 ^ W = 2 ^ (W - 1) * 2 ^ 1 := by rw [← Nat.pow_add]; congr 1; simp at hj; omega
      simp at hlt
      omega
    · rename_i hlt
      refine ⟨0, hend _ _ _, by simpa using value.isLt, fun h => absurd h (by simpa using hlt),
        by decide⟩
  | succ j ih =>
    obtain ⟨fuel, rfl⟩ : ∃ f, fuel = f + 1 := ⟨fuel - 1, by omega⟩
    have hpos : 0 < 2 ^ j := Nat.two_pow_pos j
    have htwo : 2 ^ (j + 1) = 2 ^ j * 2 := Nat.pow_succ 2 j
    have htwo' : 2 ^ (j + 2) = 2 ^ j * 4 := by rw [Nat.pow_add]
    have hhalf : 2 ^ (j + 1) / 2 = 2 ^ j := by omega
    have hmask' : (mask <<< 2 ^ (j + 1)) <<< 2 ^ j = BitVec.allOnes W <<< (W - 2 ^ j) := by
      rw [hmask, ← BitVec.shiftLeft_add]
      congr 1
      omega
    rw [maxImaxLoop, if_neg (by omega), hhalf]
    split
    · rename_i hzero
      rw [hmask, and_allOnes_shiftLeft] at hzero
      have hvalue : (value <<< 2 ^ (j + 1)).toNat = value.toNat * 2 ^ 2 ^ (j + 1) := by
        rw [toNat_shiftLeft, shiftLeft_eq]
        refine mod_eq_of_lt ?_
        calc value.toNat * 2 ^ 2 ^ (j + 1) < 2 ^ (W - 2 ^ (j + 1)) * 2 ^ 2 ^ (j + 1) :=
              Nat.mul_lt_mul_of_pos_right hzero (Nat.two_pow_pos _)
          _ = 2 ^ W := by rw [← Nat.pow_add]; congr 1; omega
      have ⟨r, hr, hlt, _, hbound⟩ := ih fuel (zeros + 2 ^ (j + 1)) _
        (value <<< 2 ^ (j + 1)) (by omega) (by omega) hmask'
      refine ⟨2 ^ (j + 1) + r, by rw [hr]; omega, ?_, fun _ => by omega, by omega⟩
      rwa [Nat.pow_add, ← Nat.mul_assoc, ← hvalue]
    · have ⟨r, hr, hlt, hpos', hbound⟩ := ih fuel zeros _ value
        (by omega) (by omega) hmask'
      exact ⟨r, hr, hlt, hpos', by omega⟩

/-- What `max_imax` counts, for the widths of the clock. -/
theorem maxImaxLoop_width (hW : W = 16 ∨ W = 32 ∨ W = 64) (value : BitVec W)
    (h64 : W = 64 → value.toNat < 2 ^ 48) (hvalue : value.toNat < 2 ^ (W - 1)) :
    ∃ r, maxImaxLoop W (W / 2) (.ofNat W 0xffff) value 0 = r ∧
      value.toNat * 2 ^ r < 2 ^ W ∧ 0 < r ∧ r < 256 := by
  rcases hW with rfl | rfl | rfl
  · have ⟨r, hr, hlt, hpos, hbound⟩ := maxImaxLoop_spec (j := 3) 16 0 (.ofNat 16 0xffff) value
      (by decide) (by decide) (by decide)
    exact ⟨r, by rw [← Nat.zero_add r]; exact hr, hlt, hpos hvalue, by omega⟩
  · have ⟨r, hr, hlt, hpos, hbound⟩ := maxImaxLoop_spec (j := 4) 32 0 (.ofNat 32 0xffff) value
      (by decide) (by decide) (by decide)
    exact ⟨r, by rw [← Nat.zero_add r]; exact hr, hlt, hpos hvalue, by omega⟩
  · -- the first mask has the bits from 32 to 47 only; there are none above them
    have hmask : value &&& BitVec.ofNat 64 0xffff <<< 32 = 0 ↔ value.toNat < 2 ^ 32 := by
      have htop := (and_allOnes_shiftLeft value 48).mpr (h64 rfl)
      rw [← and_allOnes_shiftLeft, show BitVec.allOnes 64 <<< 32 =
        BitVec.ofNat 64 0xffff <<< 32 ||| BitVec.allOnes 64 <<< 48 by decide,
        BitVec.and_or_distrib_left, htop, show (0 : BitVec 64) = 0#64 from rfl, BitVec.or_zero]
    have hmask' : (BitVec.ofNat 64 0xffff <<< 32) <<< 2 ^ 4 =
        BitVec.allOnes 64 <<< (64 - 2 ^ 4) := by decide
    rw [maxImaxLoop, if_neg (by decide)]
    simp only [reduceDiv, Nat.zero_add, hmask]
    split
    · rename_i hlt32
      have hshift : (value <<< 32).toNat = value.toNat * 2 ^ 32 := by
        rw [toNat_shiftLeft, shiftLeft_eq]
        exact mod_eq_of_lt (by omega)
      have ⟨r, hr, hlt, _, hbound⟩ := maxImaxLoop_spec (j := 4) 63 32 _
        (value <<< 32) (by decide) (by decide) hmask'
      refine ⟨32 + r, hr, ?_, by omega, by omega⟩
      rwa [Nat.pow_add, ← Nat.mul_assoc, ← hshift]
    · have ⟨r, hr, hlt, hpos, hbound⟩ := maxImaxLoop_spec (j := 4) 63 0 _
        value (by decide) (by decide) hmask'
      exact ⟨r, by rw [← Nat.zero_add r]; exact hr, hlt, hpos hvalue, by omega⟩

theorem shiftLeft_toNat {iMin : BitVec W} {m : ℕ} (hW : 0 < W)
    (h : iMin.toNat * 2 ^ m ≤ 2 ^ (W - 1)) : (iMin <<< m).toNat = iMin.toNat * 2 ^ m := by
  rw [toNat_shiftLeft, shiftLeft_eq]
  exact mod_eq_of_lt (Nat.lt_of_le_of_lt h (Nat.pow_lt_pow_right (by decide) (by omega)))

theorem clockMax_shift {m : ℕ} (hm : m ≤ W) :
    (clockMax >>> m : BitVec W).toNat = 2 ^ (W - m) - 1 := by
  have hsplit : 2 ^ W = 2 ^ (W - m) * 2 ^ m := by rw [← Nat.pow_add]; congr 1; omega
  have hpos := Nat.two_pow_pos m
  rw [clockMax, BitVec.toNat_ushiftRight, BitVec.toNat_allOnes, shiftRight_eq_div_pow, hsplit]
  have hpos' := Nat.two_pow_pos (W - m)
  refine Nat.div_eq_of_lt_le ?_ ?_
  · rw [Nat.sub_mul]
    omega
  · rw [Nat.sub_add_cancel hpos']
    exact sub_lt (Nat.mul_pos hpos' hpos) Nat.one_pos

/-- **An accepted configuration**: the intervals fit into half of the clock. -/
theorem configured {iMin : BitVec W} {iMax k : BitVec 8} {tt : TrickleTimer W}
    (hW : W = 16 ∨ W = 32 ∨ W = 64) (hfit : iMax.toNat + 1 < W)
    (h64 : W = 64 → iMin.toNat ≤ 2 ^ 48) (h : trickleTimerConfig iMin iMax k = some tt) :
    Configured tt.iMin tt.iMaxAbs tt.k := by
  have hpos : 0 < W := by omega
  rw [trickleTimerConfig] at h
  split at h
  · cases h
  rename_i hmin
  split at h
  · cases h
  rename_i hk
  cases h
  have hhalf := clockMax_shift (W := W) (m := 1) (by omega)
  simp only [iMinIsBad, decide_eq_true_eq, not_or, Nat.not_lt, BitVec.not_lt,
    BitVec.le_def, hhalf] at hmin
  have ⟨htwo, hle⟩ := hmin
  have htwoW := Nat.two_pow_pos (W - 1)
  have hsub : (iMin - 1).toNat = iMin.toNat - 1 := by
    have hone : (1 : BitVec W).toNat = 1 := by
      rcases hW with rfl | rfl | rfl <;> rfl
    rw [BitVec.toNat_sub_of_le (by rw [BitVec.le_def, hone]; omega), hone]
  suffices hmul : iMin.toNat *
      2 ^ (if iPairIsBad iMin iMax then maxImax iMin else iMax).toNat ≤ 2 ^ (W - 1) by
    have hshift := shiftLeft_toNat hpos hmul
    refine ⟨htwo, ?_, by rw [hshift]; exact hmul, fun hzero => hk (.inr hzero)⟩
    rw [hshift]
    exact Nat.le_mul_of_pos_right _ (Nat.two_pow_pos _)
  split
  · have ⟨r, hr, hlt, hrpos, hrlt⟩ := maxImaxLoop_width hW (iMin - 1)
      (fun h => by rw [hsub]; have := h64 h; omega) (by rw [hsub]; omega)
    rw [hsub] at hlt
    have hmax : (maxImax iMin).toNat = r - 1 := by
      rw [maxImax, hr, toNat_ofNat]
      exact mod_eq_of_lt (by omega)
    have hrW : r < W := by
      refine (Nat.pow_lt_pow_iff_right (a := 2) (by decide)).mp ?_
      exact Nat.lt_of_le_of_lt (Nat.le_mul_of_pos_left _ (by omega)) hlt
    have hsplit : 2 ^ W = 2 ^ (W - r) * 2 ^ r := by rw [← Nat.pow_add]; congr 1; omega
    rw [hsplit] at hlt
    have hlt' := Nat.lt_of_mul_lt_mul_right hlt
    rw [hmax]
    calc iMin.toNat * 2 ^ (r - 1) ≤ 2 ^ (W - r) * 2 ^ (r - 1) :=
          Nat.mul_le_mul_right _ (by omega)
      _ = 2 ^ (W - 1) := by rw [← Nat.pow_add]; congr 1; omega
  · rename_i hpair
    rw [iPairIsBad, Bool.not_eq_true, decide_eq_false_iff_not, BitVec.not_lt, BitVec.le_def, hsub,
      clockMax_shift (by omega)] at hpair
    have hpow := Nat.two_pow_pos (W - (iMax.toNat + 1))
    calc iMin.toNat * 2 ^ iMax.toNat ≤ 2 ^ (W - (iMax.toNat + 1)) * 2 ^ iMax.toNat :=
          Nat.mul_le_mul_right _ (by omega)
      _ = 2 ^ (W - 1) := by rw [← Nat.pow_add]; congr 1; omega

/-! ## The law -/

/-- An alarm is set to a point, or at once where the point has passed. -/
def SetTo (alarm : Timer W) (point : BitVec W) : Prop :=
  alarm.start + alarm.interval = point ∨
    alarm.interval = 0 ∧ clockMax >>> 1 < point - alarm.start

/-- An interval is as it should be: its length is between the bounds, the alarm is set to a point in
its second half, and the protocol is called at most once, then, and told to transmit if it has been
consistent less than `k` times. -/
structure Interval.Lawful (iMin iMaxAbs : BitVec W) (k : BitVec 8) (i : Interval W) : Prop where
  le_len : iMin ≤ i.len
  len_le : i.len ≤ iMaxAbs
  le_offset : i.len >>> 1 ≤ i.offset
  offset_lt : i.offset < i.len
  alarm : SetTo i.alarm (i.start + i.offset)
  once : i.firings.length ≤ 1
  firings : ∀ f ∈ i.firings, f.due = true ∧ (f.allowed = true ↔ f.heard < k.toNat)

/-- How an interval follows another: after a reset it has the least length, and else it starts at
the end and is twice as long, up to the greatest length. -/
def Follows (iMin iMaxAbs : BitVec W) (i' i : Interval W) : Prop :=
  if i.cut then i'.len = iMin
  else i'.start = i.start + i.len ∧ i'.len.toNat = min (2 * i.len.toNat) iMaxAbs.toNat

/-- **The law of a trickle timer**: every interval is as it should be and follows the one before it,
and the protocol has been called once in each that has come to its end. -/
structure Law (iMin iMaxAbs : BitVec W) (k : BitVec 8) (l : List (Interval W)) : Prop where
  lawful : ∀ i ∈ l, i.Lawful iMin iMaxAbs k
  follows : l.IsChain (Follows iMin iMaxAbs)
  fired : ∀ i ∈ l.tail, i.cut = false → i.firings.length = 1

/-- A report resets the timer. -/
def TtReport.Resets (tt : TrickleTimer W) : TtReport W → Prop
  | .consistency => False
  | .inconsistency _ _ => tt.iCur ≠ tt.iMin

instance (tt : TrickleTimer W) : DecidablePred (TtReport.Resets tt) := fun r =>
  match r with
  | .consistency => isFalse fun h => h
  | .inconsistency _ _ => inferInstanceAs (Decidable (tt.iCur ≠ tt.iMin))

/-- No reset comes while an event of the timer is in the queue, and none from within the callback
of the protocol. -/
def Undisturbed (s : TtState W) : TtEvent W → Prop
  | .report r => r.Resets s.tt → s.ct.posted = 0
  | .expire _ => True
  | .deliver reports _ _ => s.ct.f = .fire → ∀ r ∈ reports, ¬r.Resets s.tt

instance (s : TtState W) (e : TtEvent W) : Decidable (Undisturbed s e) :=
  match e with
  | .report r => inferInstanceAs (Decidable (r.Resets s.tt → s.ct.posted = 0))
  | .expire _ => isTrue trivial
  | .deliver reports _ _ =>
    inferInstanceAs (Decidable (s.ct.f = .fire → ∀ r ∈ reports, ¬r.Resets s.tt))

/-! ## What a run keeps -/

/-- The timer and the record of its intervals. -/
structure TtCore (s : TtState W) : Prop where
  cfg : Configured s.tt.iMin s.tt.iMaxAbs s.tt.k
  cb : s.tt.cb = true
  law : Law s.tt.iMin s.tt.iMaxAbs s.tt.k (s.cur :: s.past)
  len : s.cur.len = s.tt.iCur
  start : s.cur.start = s.tt.iStart
  notCut : s.cur.cut = false
  count : s.tt.c.toNat = min 255 s.cur.heard

/-- The callback timer is on the list, for the point of the interval before the firing and for its
end after it. -/
structure Waiting (s : TtState W) : Prop where
  onList : s.ct.onList = true
  fire : s.ct.f = .fire → s.cur.firings = [] ∧ s.ct.timer = s.cur.alarm
  doubleInterval : s.ct.f = .doubleInterval → s.cur.firings.length = 1

/-- The invariant of a run: the timer can expire, or one event of it is in the queue. -/
structure TtInv (s : TtState W) : Prop where
  core : TtCore s
  waiting : Waiting s
  pending : s.ct.armed = true ∧ s.ct.posted = 0 ∨ s.ct.armed = false ∧ s.ct.posted = 1

section

variable {s : TtState W} {now : BitVec W} {rand : BitVec 32}

theorem setTo_untilPoint (point : BitVec W) : SetTo (timerSet now (untilPoint point now)) point := by
  rw [untilPoint]
  split
  · rename_i hpast
    exact .inr ⟨rfl, hpast⟩
  · left
    rw [timerSet, BitVec.add_comm, BitVec.sub_add_cancel]

theorem half_toNat (x : BitVec W) : (x >>> 1).toNat = x.toNat / 2 := by
  rw [BitVec.toNat_ushiftRight, shiftRight_eq_div_pow, Nat.pow_one]

/-- The point that is drawn is in the second half. -/
theorem getT_bounds {iCur : BitVec W} (h : 2 ≤ iCur.toNat) :
    iCur >>> 1 ≤ getT iCur rand ∧ getT iCur rand < iCur := by
  have hmod := mod_lt rand.toNat (show 0 < iCur.toNat / 2 by omega)
  have hlt := iCur.isLt
  have hget : (getT iCur rand).toNat = iCur.toNat / 2 + rand.toNat % (iCur.toNat / 2) := by
    rw [getT, toNat_add, half_toNat, toNat_ofNat]
    rw [mod_eq_of_lt (a := rand.toNat % _) (by omega)]
    exact mod_eq_of_lt (by omega)
  rw [BitVec.le_def, BitVec.lt_def, hget, half_toNat]
  omega

/-- A new interval is as it should be. -/
theorem lawful_new {iMin iMaxAbs len start : BitVec W} {k : BitVec 8} {alarm : Timer W}
    (hcfg : Configured iMin iMaxAbs k) (hle : iMin ≤ len) (hle' : len ≤ iMaxAbs)
    (halarm : SetTo alarm (start + getT len rand)) :
    Interval.Lawful iMin iMaxAbs k ⟨len, start, getT len rand, alarm, 0, [], false⟩ := by
  have hbounds : len >>> 1 ≤ getT len rand ∧ getT len rand < len :=
    getT_bounds (Nat.le_trans hcfg.two_le hle)
  exact ⟨hle, hle', hbounds.1, hbounds.2, halarm, Nat.zero_le _,
    fun f hf => absurd hf not_mem_nil⟩

/-- The present interval is finished, as one that is cut short or one with a firing. -/
theorem Law.push {iMin iMaxAbs : BitVec W} {k : BitVec 8} {i i' : Interval W}
    {l : List (Interval W)} (h : Law iMin iMaxAbs k (i :: l)) (cut : Bool)
    (hi' : i'.Lawful iMin iMaxAbs k)
    (hfollows : Follows iMin iMaxAbs i' { i with cut := cut })
    (hfired : cut = false → i.firings.length = 1) :
    Law iMin iMaxAbs k (i' :: { i with cut := cut } :: l) := by
  refine ⟨fun j hj => ?_, List.isChain_cons_cons.mpr ⟨hfollows, ?_⟩, fun j hj => ?_⟩
  · rcases List.mem_cons.mp hj with rfl | hj
    · exact hi'
    rcases List.mem_cons.mp hj with rfl | hj
    · have hi := h.lawful i (mem_cons_self ..)
      exact ⟨hi.le_len, hi.len_le, hi.le_offset, hi.offset_lt, hi.alarm, hi.once, hi.firings⟩
    · exact h.lawful j (mem_cons_of_mem _ hj)
  · cases l with
    | nil => exact .singleton _
    | cons j l =>
      have hchain := List.isChain_cons_cons.mp h.follows
      exact List.isChain_cons_cons.mpr hchain
  · rcases List.mem_cons.mp hj with rfl | hj
    · exact hfired
    · exact h.fired j hj

/-- The present interval is rewritten: its place and its end are the same. -/
theorem Law.modify {iMin iMaxAbs : BitVec W} {k : BitVec 8} {i i' : Interval W}
    {l : List (Interval W)} (h : Law iMin iMaxAbs k (i :: l)) (hi' : i'.Lawful iMin iMaxAbs k)
    (hlen : i'.len = i.len) (hstart : i'.start = i.start) : Law iMin iMaxAbs k (i' :: l) := by
  refine ⟨fun j hj => ?_, ?_, h.fired⟩
  · rcases List.mem_cons.mp hj with rfl | hj
    · exact hi'
    · exact h.lawful j (mem_cons_of_mem _ hj)
  · cases l with
    | nil => exact .singleton _
    | cons j l =>
      have hchain := List.isChain_cons_cons.mp h.follows
      refine List.isChain_cons_cons.mpr ⟨?_, hchain.2⟩
      rw [Follows, hlen, hstart]
      exact hchain.1

/-! ### Resets and ends of intervals -/

theorem TtCore.two_le_iCur (h : TtCore s) : 2 ≤ s.tt.iCur.toNat := by
  have hle := (h.law.lawful s.cur (mem_cons_self ..)).le_len
  rw [h.len] at hle
  exact Nat.le_trans h.cfg.two_le hle

theorem TtCore.iCur_ne (h : TtCore s) : s.tt.iCur ≠ 0 := by
  intro hzero
  have htwo := h.two_le_iCur
  rw [hzero] at htwo
  simp at htwo

/-- **A reset**, while no event of the timer is in the queue. -/
theorem TtCore.reset (h : TtCore s) (hposted : s.ct.posted = 0) :
    TtInv ({ s with tt := { s.tt with iCur := s.tt.iMin } }.newInterval now rand) := by
  have hle := h.cfg.le
  refine ⟨⟨h.cfg, h.cb, ?_, rfl, rfl, rfl, rfl⟩, ⟨rfl, fun _ => ⟨rfl, rfl⟩, fun hf => ?_⟩,
    .inl ⟨rfl, hposted⟩⟩
  · exact h.law.push true (lawful_new h.cfg (BitVec.le_refl _) hle (.inl rfl)) rfl
      (fun hcut => by cases hcut)
  · cases hf

/-- **The end of an interval** with a firing. -/
theorem TtCore.doubleInterval (h : TtCore s) (hfired : s.cur.firings.length = 1)
    (hposted : s.ct.posted = 0) : TtInv (s.doubleInterval now rand) := by
  have hcur := h.law.lawful s.cur (mem_cons_self ..)
  have hmin : s.tt.iMin ≤ s.tt.iCur := h.len ▸ hcur.le_len
  have hmax : s.tt.iCur ≤ s.tt.iMaxAbs := h.len ▸ hcur.len_le
  have hlt := s.tt.iMaxAbs.isLt
  have hdouble : (if s.tt.iCur ≤ s.tt.iMaxAbs >>> 1 then s.tt.iCur <<< 1
      else s.tt.iMaxAbs).toNat = min (2 * s.tt.iCur.toNat) s.tt.iMaxAbs.toNat := by
    split
    · rename_i hle
      rw [BitVec.le_def, half_toNat] at hle
      rw [toNat_shiftLeft, shiftLeft_eq, mod_eq_of_lt (by omega)]
      omega
    · rename_i hle
      rw [BitVec.le_def, half_toNat] at hle
      omega
  rw [BitVec.le_def] at hmin hmax
  refine ⟨⟨h.cfg, h.cb, ?_, rfl, rfl, rfl, rfl⟩, ⟨rfl, fun _ => ⟨rfl, rfl⟩, fun hf => ?_⟩,
    .inl ⟨rfl, hposted⟩⟩
  · refine h.law.push false (lawful_new h.cfg ?_ ?_ (setTo_untilPoint _)) ?_ fun _ => hfired
    · rw [BitVec.le_def, hdouble]
      omega
    · rw [BitVec.le_def, hdouble]
      omega
    · refine ⟨?_, ?_⟩
      · rw [h.start, h.len]
        rfl
      · rw [h.len]
        exact hdouble
  · cases hf

/-! ### Reports -/

/-- A consistent event is counted. -/
theorem TtCore.consistency (h : TtCore s) : TtCore s.consistency := by
  have hcur := h.law.lawful s.cur (mem_cons_self ..)
  have hlaw : Law s.tt.iMin s.tt.iMaxAbs s.tt.k
      ({ s.cur with heard := s.cur.heard + 1 } :: s.past) :=
    h.law.modify ⟨hcur.le_len, hcur.len_le, hcur.le_offset, hcur.offset_lt, hcur.alarm, hcur.once,
      hcur.firings⟩ rfl rfl
  have hcount := h.count
  rw [TtState.consistency, if_neg h.iCur_ne]
  split
  · rename_i hlt
    rw [BitVec.lt_def] at hlt
    refine ⟨h.cfg, h.cb, hlaw, h.len, h.start, h.notCut, ?_⟩
    show (s.tt.c + 1).toNat = min 255 (s.cur.heard + 1)
    rw [toNat_add, hcount]
    simp only [BitVec.reduceToNat] at hlt ⊢
    omega
  · rename_i hlt
    rw [BitVec.lt_def] at hlt
    refine ⟨h.cfg, h.cb, hlaw, h.len, h.start, h.notCut, ?_⟩
    show s.tt.c.toNat = min 255 (s.cur.heard + 1)
    simp only [BitVec.reduceToNat] at hlt
    omega

/-- What a consistent event leaves as it is. -/
structure SamePlace (s t : TtState W) : Prop where
  ct : t.ct = s.ct
  firings : t.cur.firings = s.cur.firings
  alarm : t.cur.alarm = s.cur.alarm
  iCur : t.tt.iCur = s.tt.iCur
  iMin : t.tt.iMin = s.tt.iMin

theorem samePlace_consistency : SamePlace s s.consistency := by
  rw [TtState.consistency]
  split
  · exact ⟨rfl, rfl, rfl, rfl, rfl⟩
  · split <;> exact ⟨rfl, rfl, rfl, rfl, rfl⟩

/-- A report that does not reset the timer. -/
theorem TtCore.report (h : TtCore s) {r : TtReport W} (hr : ¬r.Resets s.tt) :
    TtCore (s.report r) ∧ SamePlace s (s.report r) := by
  cases r with
  | consistency => exact ⟨h.consistency, samePlace_consistency⟩
  | inconsistency now rand =>
    have hmin : s.tt.iCur = s.tt.iMin := not_not.mp hr
    have hsame : s.report (.inconsistency now rand) = s := by
      rw [TtState.report, TtState.inconsistency, if_neg h.iCur_ne, if_neg (not_not.mpr hmin)]
    rw [hsame]
    exact ⟨h, rfl, rfl, rfl, rfl, rfl⟩

theorem TtCore.reports (h : TtCore s) {reports : List (TtReport W)}
    (hr : ∀ r ∈ reports, ¬r.Resets s.tt) :
    TtCore (reports.foldl TtState.report s) ∧ SamePlace s (reports.foldl TtState.report s) := by
  induction reports generalizing s with
  | nil => exact ⟨h, rfl, rfl, rfl, rfl, rfl⟩
  | cons r reports ih =>
    have ⟨hcore, hplace⟩ := h.report (hr r (mem_cons_self ..))
    have hrest : ∀ r' ∈ reports, ¬r'.Resets (s.report r).tt := by
      intro r' hr'
      have hnot := hr r' (mem_cons_of_mem _ hr')
      cases r' with
      | consistency => exact fun hreset => hreset
      | inconsistency now rand =>
        show ¬((s.report r).tt.iCur ≠ (s.report r).tt.iMin)
        rw [hplace.iCur, hplace.iMin]
        exact hnot
    have ⟨hcore', hplace'⟩ := ih hcore hrest
    exact ⟨hcore', hplace'.ct.trans hplace.ct, hplace'.firings.trans hplace.firings,
      hplace'.alarm.trans hplace.alarm, hplace'.iCur.trans hplace.iCur,
      hplace'.iMin.trans hplace.iMin⟩

/-! ### The firing -/

/-- The protocol is told to transmit if the interval has been consistent less than `k` times. -/
theorem TtCore.allowed (h : TtCore s) :
    protoTxAllow s.tt = true ↔ s.cur.heard < s.tt.k.toNat := by
  have hk := s.tt.k.isLt
  have hcount := h.count
  rw [protoTxAllow, decide_eq_true_eq, BitVec.lt_def]
  constructor
  · intro hallow
    have hlt := hallow.resolve_left h.cfg.k_ne
    omega
  · intro hlt
    right
    omega

/-- The callback is called when the alarm has expired. -/
theorem TtCore.call (h : TtCore s) (hfirings : s.cur.firings = [])
    (halarm : s.ct.timer = s.cur.alarm) (harmed : s.ct.armed = false) : TtCore s.call := by
  have hcur := h.law.lawful s.cur (mem_cons_self ..)
  have hcall : s.call.cur.firings =
      [⟨protoTxAllow s.tt, s.cur.heard, !s.ct.armed && s.ct.timer = s.cur.alarm⟩] := by
    rw [TtState.call, hfirings, nil_append]
  refine ⟨h.cfg, h.cb, h.law.modify ⟨hcur.le_len, hcur.len_le, hcur.le_offset, hcur.offset_lt,
    hcur.alarm, ?_, fun f hf => ?_⟩ rfl rfl, h.len, h.start, h.notCut, h.count⟩
  · rw [hcall]
    exact le_rfl
  · rw [hcall, mem_singleton] at hf
    rw [hf]
    exact ⟨by simp [harmed, halarm], h.allowed⟩

/-- **The firing** of an interval, with reports that do not reset the timer. -/
theorem TtCore.fire (h : TtCore s) (hfirings : s.cur.firings = [])
    (halarm : s.ct.timer = s.cur.alarm) (harmed : s.ct.armed = false) (hposted : s.ct.posted = 0)
    {reports : List (TtReport W)} (hr : ∀ r ∈ reports, ¬r.Resets s.tt) :
    TtInv (s.fire reports now) := by
  have ⟨hcore, hplace⟩ := (h.call hfirings halarm harmed).reports hr
  rw [TtState.fire, if_pos h.cb, if_pos hcore.iCur_ne]
  refine ⟨⟨hcore.cfg, hcore.cb, hcore.law, hcore.len, hcore.start, hcore.notCut, hcore.count⟩,
    ⟨rfl, fun hf => TtCallback.noConfusion hf, fun _ => ?_⟩, .inl ⟨rfl, ?_⟩⟩
  · show (reports.foldl TtState.report s.call).cur.firings.length = 1
    rw [hplace.firings]
    simp [TtState.call, hfirings]
  · show (reports.foldl TtState.report s.call).ct.posted = 0
    rw [hplace.ct]
    exact hposted

/-! ## Runs -/

theorem TtInv.start {tt : TrickleTimer W} (h : Configured tt.iMin tt.iMaxAbs tt.k)
    {r r' : BitVec 32} : TtInv (trickleTimerSet tt now r r') := by
  have hle := h.le
  have hlt := tt.iMaxAbs.isLt
  have hhalf := h.le_half
  have htwo := h.two_le
  have hcur : (tt.iMin + BitVec.ofNat W (r.toNat % (tt.iMaxAbs - tt.iMin + 1).toNat)).toNat ∈
      Set.Icc tt.iMin.toNat tt.iMaxAbs.toNat := by
    have hone : (1 : BitVec W).toNat = 1 := by
      show (BitVec.ofNat W 1).toNat = 1
      rw [toNat_ofNat]
      exact mod_eq_of_lt (by omega)
    have hrange : (tt.iMaxAbs - tt.iMin + 1).toNat = tt.iMaxAbs.toNat - tt.iMin.toNat + 1 := by
      rw [toNat_add, BitVec.toNat_sub_of_le hle, hone]
      exact mod_eq_of_lt (by omega)
    have hmod := mod_lt r.toNat (succ_pos (tt.iMaxAbs.toNat - tt.iMin.toNat))
    rw [succ_eq_add_one, ← hrange] at hmod
    rw [toNat_add, toNat_ofNat, mod_eq_of_lt (a := r.toNat % _) (by omega),
      mod_eq_of_lt (by omega)]
    exact ⟨by omega, by omega⟩
  refine ⟨⟨h, rfl, ⟨fun i hi => ?_, .singleton _, fun i hi => absurd hi not_mem_nil⟩,
    rfl, rfl, rfl, rfl⟩, ⟨rfl, fun _ => ⟨rfl, rfl⟩, fun hf => TtCallback.noConfusion hf⟩,
    .inl ⟨rfl, rfl⟩⟩
  rw [List.mem_singleton.mp hi]
  exact lawful_new h hcur.1 hcur.2 (.inl rfl)

/-- **A step that does not disturb the timer.** -/
theorem TtInv.step {t : TtState W} {e : TtEvent W} (h : TtInv s) (he : Undisturbed s e)
    (hstep : s.step e = some t) : TtInv t := by
  cases e with
  | report r =>
    cases hstep
    by_cases hr : r.Resets s.tt
    · cases r with
      | consistency => cases hr
      | inconsistency now rand =>
        rw [TtState.report, TtState.inconsistency, if_neg h.core.iCur_ne,
          if_pos (show s.tt.iCur ≠ s.tt.iMin from hr)]
        exact h.core.reset (he hr)
    · have ⟨hcore, hplace⟩ := h.core.report hr
      refine ⟨hcore, ⟨?_, fun hf => ?_, fun hf => ?_⟩, ?_⟩
      · rw [hplace.ct]
        exact h.waiting.onList
      · rw [hplace.ct] at hf ⊢
        rw [hplace.firings, hplace.alarm]
        exact h.waiting.fire hf
      · rw [hplace.ct] at hf
        rw [hplace.firings]
        exact h.waiting.doubleInterval hf
      · rw [hplace.ct]
        exact h.pending
  | expire now =>
    rw [TtState.step] at hstep
    split at hstep
    · rename_i hexpired
      cases hstep
      have hposted := (h.pending.resolve_right fun hp => by simp [hp.1] at hexpired).2
      exact ⟨⟨h.core.cfg, h.core.cb, h.core.law, h.core.len, h.core.start, h.core.notCut,
        h.core.count⟩, ⟨h.waiting.onList, h.waiting.fire, h.waiting.doubleInterval⟩,
        .inr ⟨rfl, congrArg (· + 1) hposted⟩⟩
    · cases hstep
  | deliver reports now rand =>
    rw [TtState.step] at hstep
    split at hstep
    · cases hstep
    · rename_i hposted
      have ⟨harmed, hone⟩ := h.pending.resolve_left fun hp => hposted hp.2
      simp only [h.waiting.onList, if_true, Option.some.injEq] at hstep
      have hcore : TtCore { s with ct := { s.ct with posted := s.ct.posted - 1, onList := false } } :=
        ⟨h.core.cfg, h.core.cb, h.core.law, h.core.len, h.core.start, h.core.notCut, h.core.count⟩
      have hnone : s.ct.posted - 1 = 0 := by omega
      rw [← hstep, TtState.callback]
      split
      · rename_i hf
        have ⟨hfirings, halarm⟩ := h.waiting.fire hf
        exact hcore.fire hfirings halarm harmed hnone (he hf)
      · rename_i hf
        exact hcore.doubleInterval (h.waiting.doubleInterval hf) hnone

/-! ### The configuration stays -/

/-- Two states of a timer have one configuration. -/
structure SameConfig (s t : TtState W) : Prop where
  iMin : t.tt.iMin = s.tt.iMin
  iMaxAbs : t.tt.iMaxAbs = s.tt.iMaxAbs
  k : t.tt.k = s.tt.k

theorem SameConfig.trans {t u : TtState W} (h : SameConfig s t) (h' : SameConfig t u) :
    SameConfig s u :=
  ⟨h'.iMin.trans h.iMin, h'.iMaxAbs.trans h.iMaxAbs, h'.k.trans h.k⟩

theorem sameConfig_report (r : TtReport W) : SameConfig s (s.report r) := by
  cases r with
  | consistency =>
    rw [TtState.report, TtState.consistency]
    split
    · exact ⟨rfl, rfl, rfl⟩
    · split <;> exact ⟨rfl, rfl, rfl⟩
  | inconsistency now rand =>
    rw [TtState.report, TtState.inconsistency]
    split
    · exact ⟨rfl, rfl, rfl⟩
    · split <;> exact ⟨rfl, rfl, rfl⟩

theorem sameConfig_reports (reports : List (TtReport W)) :
    SameConfig s (reports.foldl TtState.report s) := by
  induction reports generalizing s with
  | nil => exact ⟨rfl, rfl, rfl⟩
  | cons r reports ih => exact (sameConfig_report r).trans ih

variable (s now rand) in
theorem sameConfig_callback (reports : List (TtReport W)) :
    SameConfig s (s.callback reports now rand) := by
  have hcall : SameConfig s s.call := ⟨rfl, rfl, rfl⟩
  have hreports := hcall.trans (sameConfig_reports (s := s.call) reports)
  rw [TtState.callback]
  split
  · rw [TtState.fire]
    split <;> split
    · exact ⟨hreports.iMin, hreports.iMaxAbs, hreports.k⟩
    · exact hreports
    · exact ⟨rfl, rfl, rfl⟩
    · exact ⟨rfl, rfl, rfl⟩
  · exact ⟨rfl, rfl, rfl⟩

theorem sameConfig_step {t : TtState W} {e : TtEvent W} (hstep : s.step e = some t) :
    SameConfig s t := by
  cases e with
  | report r => cases hstep; exact sameConfig_report r
  | expire now =>
    rw [TtState.step] at hstep
    split at hstep
    · cases hstep; exact ⟨rfl, rfl, rfl⟩
    · cases hstep
  | deliver reports now rand =>
    rw [TtState.step] at hstep
    split at hstep
    · cases hstep
    · simp only at hstep
      split at hstep
      · cases hstep
        have hcallback := sameConfig_callback
          { s with ct := { s.ct with posted := s.ct.posted - 1, onList := false } } now rand reports
        exact ⟨hcallback.iMin, hcallback.iMaxAbs, hcallback.k⟩
      · cases hstep; exact ⟨rfl, rfl, rfl⟩

/-- **The law of a trickle timer**, for every accepted configuration and every run that does not
disturb the timer. -/
theorem trickle_law {iMin : BitVec W} {iMax k : BitVec 8} {tt : TrickleTimer W}
    {r r' : BitVec 32} {t : TtState W} {es : List (TtEvent W)}
    (hW : W = 16 ∨ W = 32 ∨ W = 64) (hfit : iMax.toNat + 1 < W)
    (h64 : W = 64 → iMin.toNat ≤ 2 ^ 48) (hconfig : trickleTimerConfig iMin iMax k = some tt)
    (hrun : run TtState.step (trickleTimerSet tt now r r') es = some t)
    (hundisturbed : Along TtState.step Undisturbed (trickleTimerSet tt now r r') es) :
    Law tt.iMin tt.iMaxAbs tt.k (t.cur :: t.past) := by
  have hstart : TtInv (trickleTimerSet tt now r r') := .start (configured hW hfit h64 hconfig)
  have hinv := run_induction TtInv (fun _ _ _ he h hstep => h.step he hstep) hstart hundisturbed
    hrun
  have hconst : SameConfig (trickleTimerSet tt now r r') t :=
    run_invariant (SameConfig (trickleTimerSet tt now r r'))
      (fun _ _ _ h hstep => h.trans (sameConfig_step hstep)) ⟨rfl, rfl, rfl⟩ hrun
  have hlaw := hinv.core.law
  rw [hconst.iMin, hconst.iMaxAbs, hconst.k] at hlaw
  exact hlaw

/-! ## Two resets -/

/-- A timer with intervals from 16 to 4096 ticks, on a clock of 32 bits, that starts with one of 17
ticks. -/
def ttExample : TtState 32 := trickleTimerSet ⟨16, 0, 0, 4096, false, 8, 1, 0⟩ 0 1 0

/-- The protocol is called in the first interval, which comes to its end. -/
def ttCalm : List (TtEvent 32) :=
  [.report .consistency, .expire 8, .deliver [.consistency] 8 0, .expire 17, .deliver [] 17 3]

/-- The callback of the protocol resets the timer. -/
def ttFromCallback : List (TtEvent 32) :=
  [.expire 8, .deliver [.inconsistency 8 0] 8 0, .expire 24, .deliver [] 24 0]

/-- The timer is reset while an event of it is in the queue. -/
def ttInFlight : List (TtEvent 32) :=
  [.expire 8, .report (.inconsistency 9 0), .deliver [] 9 0]

/-- The state after a run. -/
def ttAfter (es : List (TtEvent 32)) : TtState 32 := (run TtState.step ttExample es).getD ttExample

theorem trickle_law_calm :
    Law 16 4096 1 ((ttAfter ttCalm).cur :: (ttAfter ttCalm).past) ∧
      (ttAfter ttCalm).cur.len = 34 ∧
      (ttAfter ttCalm).past.map Interval.firings = [[⟨false, 1, true⟩]] := by
  refine ⟨?_, by decide +kernel, by decide +kernel⟩
  have hconfig : trickleTimerConfig (16 : BitVec 32) 8 1 =
      some ⟨16, 0, 0, 4096, false, 8, 1, 0⟩ := by decide +kernel
  have hrun : run TtState.step ttExample ttCalm = some (ttAfter ttCalm) := by decide +kernel
  have hundisturbed : Along TtState.step Undisturbed ttExample ttCalm := by decide +kernel
  exact trickle_law (.inr (.inl rfl)) (by decide) (by decide) hconfig hrun hundisturbed

/-- **A firing is lost** when the callback resets the timer: the interval that the reset starts
comes to its end, and the protocol has not been called in it. **A firing is early** when an event of
the timer is in the queue: the point of the new interval has not come. -/
theorem trickle_firing_lost :
    run TtState.step ttExample ttFromCallback = some (ttAfter ttFromCallback) ∧
      (ttAfter ttFromCallback).past.map (fun i => (i.cut, i.firings)) =
        [(false, []), (true, [⟨true, 0, true⟩])] ∧
      run TtState.step ttExample ttInFlight = some (ttAfter ttInFlight) ∧
      (ttAfter ttInFlight).cur.offset = 8 ∧ (ttAfter ttInFlight).cur.start = 9 ∧
      (ttAfter ttInFlight).cur.firings = [⟨true, 0, false⟩] := by
  decide +kernel

end

end Asap.Trickle
