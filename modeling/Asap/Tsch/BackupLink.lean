import Asap.Tsch.BestLink

/-!
# The backup link

While it looks for the next active link, the scan keeps a receiving link in reserve for the same
time. Whenever two links come up at one time, the one that is not the new best link is a candidate.
Where the best link so far simply stays, no new best link is set, and the scan takes the best link
itself for one that has been replaced. With the latest version the candidate of the lowest slotframe
is kept, so that a link becomes its own backup exactly if no receiving link before has as low a
handle. The older version keeps the first candidate.

## Main definitions

* `BackupRight` — what is wanted of the backup link.
* `SelfBackup` — the links at a time where the best link becomes its own backup.
* `FirstPassed` — the candidate that comes first.
* `BackupCondition` — the condition on a schedule and an ASN.
-/

namespace Asap.Tsch.TschSchedule

open List
open Option (getD_some some_ne_none none_or)

variable (cfg : ScanConfig) (s : TschSchedule)

/-- Whether a link has `LINK_OPTION_RX`. -/
def rxLink (l : LinkId) : Bool := isRx (s.links l).linkOptions

/-- The backup link is a receiving link at the time of the link returned, another one than that,
and of the lowest slotframe among them; and there is one if there is such a link. -/
def BackupRight (asn : TschAsn) (r : NextLink) : Prop :=
  ∀ b time, r.link = some b → r.timeOffset = some time →
    (∀ k, r.backupLink = some k → k ∈ s.linksAt asn time ∧ s.rxLink k = true ∧ k ≠ b ∧
      ∀ m ∈ s.linksAt asn time, s.rxLink m = true → m ≠ b → s.handleOf k ≤ s.handleOf m) ∧
    ((∃ m ∈ s.linksAt asn time, s.rxLink m = true ∧ m ≠ b) → r.backupLink.isSome = true)

/-- Links of one slotframe, both Tx links or neither of them. -/
def SameKind (b l : LinkId) : Prop := s.txLink b = s.txLink l ∧ s.handleOf l = s.handleOf b

/-- Behind a receiving link comes one of another kind, so that no other receiving link up to that one
is of a slotframe as low, and none behind it is of a lower one. -/
def SelfBackup (ls : List LinkId) (b : LinkId) : Prop :=
  s.rxLink b = true ∧ ∃ p l q, ls = p ++ l :: q ∧ b ∈ p ∧ ¬s.SameKind b l ∧
    (∀ m ∈ p ++ [l], m ≠ b → s.rxLink m = true → s.handleOf b < s.handleOf m) ∧
    ∀ m ∈ q, s.rxLink m = true → s.handleOf b ≤ s.handleOf m

/-- The receiving link that is passed over when a link comes after the best one. -/
def passed (b l : LinkId) : Option LinkId :=
  if s.rxLink b ∧ s.newBestLink cfg b l ≠ some b then some b
  else if s.rxLink l ∧ s.newBestLink cfg b l ≠ some l then some l
  else none

/-- No receiving link is passed over in a list. -/
def Unpassed (ls : List LinkId) : Prop :=
  ∀ p b l q, ls = p ++ l :: q → s.choice cfg p = some b → s.passed cfg b l = none

/-- The first receiving link that is passed over in a list. -/
def FirstPassed (ls : List LinkId) (k : LinkId) : Prop :=
  ∃ p b l q, ls = p ++ l :: q ∧ s.choice cfg p = some b ∧ s.passed cfg b l = some k ∧
    s.Unpassed cfg p

/-- With the latest version the next active link does not become its own backup. With the older one
the first receiving link passed over is another link than that, and of the lowest slotframe. -/
def BackupCondition (asn : TschAsn) : Prop :=
  s.tschLocked = true ∨ ∀ b time, NextActive cfg s asn b time →
    if cfg.hckApplyLatestContiki then ¬s.SelfBackup (s.linksAt asn time) b
    else ∀ k, s.FirstPassed cfg (s.linksAt asn time) k → k ≠ b ∧
      ∀ m ∈ s.linksAt asn time, s.rxLink m = true → m ≠ b → s.handleOf k ≤ s.handleOf m

variable {cfg : ScanConfig} {s : TschSchedule} {asn : TschAsn} {ls : List LinkId} {b l k m : LinkId}
  {newBest currBackup : Option LinkId}

/-! ## One candidate -/

/-- A backup of a slotframe that is not above a bound. -/
def Covers (s : TschSchedule) (currBackup : Option LinkId) (h : BitVec 16) : Prop :=
  ∃ k, currBackup = some k ∧ s.handleOf k ≤ h

theorem tryBackup_of_taken (hnew : newBest ≠ some l) (hrx : s.rxLink l = true)
    (hlow : ∀ k, currBackup = some k → s.handleOf l < s.handleOf k) :
    s.tryBackup true newBest l currBackup = some l := by
  have hgives : s.backupGivesWay true currBackup l = true := by
    cases hbackup : currBackup with
    | none => rfl
    | some k => exact decide_eq_true (hlow k hbackup)
  rw [tryBackup, if_pos]
  rw [Bool.and_eq_true, Bool.and_eq_true]
  exact ⟨⟨decide_eq_true hnew, hrx⟩, hgives⟩

theorem tryBackup_of_kept (hkept : newBest = some l ∨ s.rxLink l = false ∨
    ∃ k, currBackup = some k ∧ s.handleOf k ≤ s.handleOf l) :
    s.tryBackup true newBest l currBackup = currBackup := by
  rw [tryBackup, if_neg]
  intro htaken
  rw [Bool.and_eq_true, Bool.and_eq_true] at htaken
  obtain ⟨⟨hnew, hrx⟩, hgives⟩ := htaken
  cases hkept with
  | inl hl => exact of_decide_eq_true hnew hl
  | inr hkept =>
    cases hkept with
    | inl hnot => exact absurd (hrx.symm.trans hnot) (by decide)
    | inr hlow =>
      obtain ⟨k, hk, hle⟩ := hlow
      rw [hk] at hgives
      have hlt : s.handleOf l < s.handleOf k := of_decide_eq_true hgives
      exact Nat.lt_irrefl _ (Nat.lt_of_lt_of_le hlt hle)

/-- A candidate is taken or not. -/
theorem tryBackup_cases (newBest : Option LinkId) (l : LinkId) (currBackup : Option LinkId) :
    (s.tryBackup true newBest l currBackup = some l ∧ newBest ≠ some l ∧ s.rxLink l = true ∧
        ∀ k, currBackup = some k → s.handleOf l < s.handleOf k) ∨
      (s.tryBackup true newBest l currBackup = currBackup ∧
        (newBest = some l ∨ s.rxLink l = false ∨ s.Covers currBackup (s.handleOf l))) := by
  by_cases hnew : newBest = some l
  · exact Or.inr ⟨tryBackup_of_kept (Or.inl hnew), Or.inl hnew⟩
  · cases hrx : s.rxLink l with
    | false => exact Or.inr ⟨tryBackup_of_kept (Or.inr (Or.inl hrx)), Or.inr (Or.inl rfl)⟩
    | true =>
      by_cases hlow : s.Covers currBackup (s.handleOf l)
      · exact Or.inr ⟨tryBackup_of_kept (Or.inr (Or.inr hlow)), Or.inr (Or.inr hlow)⟩
      · have hlt : ∀ k, currBackup = some k → s.handleOf l < s.handleOf k := fun k hk =>
          Nat.lt_of_not_le fun hle => hlow ⟨k, hk, hle⟩
        exact Or.inl ⟨tryBackup_of_taken hnew hrx hlt, hnew, rfl, hlt⟩

theorem Covers.tryBackup {h : BitVec 16} (hcovers : s.Covers currBackup h)
    (newBest : Option LinkId) (l : LinkId) :
    s.Covers (s.tryBackup true newBest l currBackup) h := by
  have ⟨k, hk, hle⟩ := hcovers
  cases s.tryBackup_cases newBest l currBackup with
  | inl htaken =>
    exact ⟨l, htaken.1, Nat.le_trans (Nat.le_of_lt (htaken.2.2.2 k hk)) hle⟩
  | inr hkept => exact ⟨k, hkept.1.trans hk, hle⟩

/-- A receiving link that is not the new best one is covered. -/
theorem covers_tryBackup (hnew : newBest ≠ some l) (hrx : s.rxLink l = true) :
    s.Covers (s.tryBackup true newBest l currBackup) (s.handleOf l) := by
  cases s.tryBackup_cases newBest l currBackup with
  | inl htaken => exact ⟨l, htaken.1, BitVec.le_refl _⟩
  | inr hkept =>
    rw [hkept.1]
    cases hkept.2 with
    | inl hl => exact absurd hl hnew
    | inr hrest =>
      cases hrest with
      | inl hnot => exact absurd (hrx.symm.trans hnot) (by decide)
      | inr hcovers => exact hcovers

theorem tryBackup_some (h : s.tryBackup true newBest l currBackup = some k) :
    (k = l ∧ newBest ≠ some l ∧ s.rxLink l = true ∧
      ∀ m, currBackup = some m → s.handleOf l < s.handleOf m) ∨ currBackup = some k := by
  cases s.tryBackup_cases newBest l currBackup with
  | inl htaken => exact Or.inl ⟨Option.some.inj (h.symm.trans htaken.1), htaken.2⟩
  | inr hkept => exact Or.inr (hkept.1.symm.trans h)

/-! ## The better of two links -/

theorem newBestLink_of_sameKind (h : s.SameKind b l) :
    s.newBestLink cfg b l = some (s.defaultTschLinkComparator b l) := by
  have host : ¬(cfg.withOst = true ∧ s.txLink b = s.txLink l ∧ s.handleOf b = 1 ∧
      s.txLink b = true ∧ s.handleOf l = 2) := fun host => by
    have htwo := host.2.2.2.2
    rw [h.2, host.2.2.1] at htwo
    exact absurd htwo (by decide)
  rw [newBestLink, if_neg host, newBest_eq, if_pos h.1, if_neg fun hne => hne h.2]

/-- The best link stays by the comparator only against a link of its kind. -/
theorem sameKind_of_newBestLink (h : s.newBestLink cfg b l = some b) (hne : b ≠ l) :
    s.SameKind b l := by
  rw [newBestLink, newBest_eq] at h
  split_ifs at h with host htx hhandle hlt hl
  · exact absurd (Option.some.inj h).symm hne
  · exact absurd (Option.some.inj h).symm hne
  · exact ⟨htx, not_not.mp hhandle⟩
  · exact absurd (Option.some.inj h).symm hne

theorem newBestLink_mem (h : s.newBestLink cfg b l = some m) : m = b ∨ m = l := by
  rw [newBestLink] at h
  split_ifs at h with host
  · exact Or.inr (Option.some.inj h).symm
  · exact newBest_mem h

/-! ## The latest version -/

/-- One more link behind. -/
theorem selfBackup_append (hb : b ∈ ls) :
    s.SelfBackup (ls ++ [l]) b ↔
      (s.SelfBackup ls b ∧ (s.rxLink l = true → s.handleOf b ≤ s.handleOf l)) ∨
        (s.rxLink b = true ∧ ¬s.SameKind b l ∧
          ∀ m ∈ ls ++ [l], m ≠ b → s.rxLink m = true → s.handleOf b < s.handleOf m) := by
  constructor
  · intro ⟨hrx, p, x, q, hsplit, hp, hother, hlow, hbehind⟩
    cases eq_nil_or_concat q with
    | inl hq =>
      rw [hq] at hsplit
      have ⟨hls, hx⟩ := append_inj' hsplit rfl
      rw [← (List.cons.inj hx).1] at hother hlow
      rw [← hls] at hlow
      exact Or.inr ⟨hrx, hother, hlow⟩
    | inr hq =>
      have ⟨q', y, hq'⟩ := hq
      rw [hq', concat_eq_append, ← cons_append, ← append_assoc] at hsplit
      have ⟨hls, hy⟩ := append_inj' hsplit rfl
      rw [hq', concat_eq_append, ← (List.cons.inj hy).1] at hbehind
      refine Or.inl ⟨⟨hrx, p, x, q', hls, hp, hother, hlow, fun m hm => ?_⟩, ?_⟩
      · exact hbehind m (mem_append_left [l] hm)
      · exact hbehind l (mem_append_right q' mem_cons_self)
  · intro h
    cases h with
    | inl hls =>
      have ⟨⟨hrx, p, x, q, hsplit, hp, hother, hlow, hbehind⟩, hl⟩ := hls
      refine ⟨hrx, p, x, q ++ [l], ?_, hp, hother, hlow, fun m hm => ?_⟩
      · rw [hsplit, append_assoc, cons_append]
      · cases mem_append.mp hm with
        | inl hin => exact hbehind m hin
        | inr hlast =>
          rw [mem_singleton.mp hlast]
          exact hl
    | inr hlast =>
      exact ⟨hlast.1, ls, l, [], rfl, hb, hlast.2.1, hlast.2.2,
        fun m hm => absurd hm not_mem_nil⟩

/-- The last link has nothing behind it. -/
theorem not_selfBackup_last (hl : l ∉ ls) : ¬s.SelfBackup (ls ++ [l]) l := by
  intro ⟨_, p, x, q, hsplit, hp, _⟩
  cases eq_nil_or_concat q with
  | inl hq =>
    rw [hq] at hsplit
    rw [(append_inj' hsplit rfl).1] at hl
    exact hl hp
  | inr hq =>
    have ⟨q', y, hq'⟩ := hq
    rw [hq', concat_eq_append, ← cons_append, ← append_assoc] at hsplit
    rw [(append_inj' hsplit rfl).1] at hl
    exact hl (mem_append_left _ hp)

/-- What is known of the backup that the latest version keeps beside the best link. -/
structure Reserve (cfg : ScanConfig) (s : TschSchedule) (ls : List LinkId) (b : LinkId)
    (currBackup : Option LinkId) : Prop where
  best : s.choice cfg ls = some b
  mem : ∀ k, currBackup = some k → k ∈ ls ∧ s.rxLink k = true
  covers : ∀ m ∈ ls, m ≠ b → s.rxLink m = true → s.Covers currBackup (s.handleOf m)
  self : currBackup = some b ↔ s.SelfBackup ls b

section

variable (h : Reserve cfg s ls b currBackup) (hl : l ∉ ls)

include h hl

/-- The new link becomes the best one. -/
theorem Reserve.replaced (hnew : s.newBestLink cfg b l = some l) :
    Reserve cfg s (ls ++ [l]) l (s.tryBackup true (some l) b currBackup) := by
  have hb := choice_mem h.best
  have hbl : some l ≠ some b := fun heq => hl (Option.some.inj heq ▸ hb)
  have hmem : ∀ k, s.tryBackup true (some l) b currBackup = some k → k ∈ ls ∧ s.rxLink k = true := by
    intro k hk
    cases tryBackup_some hk with
    | inl htaken => exact htaken.1 ▸ ⟨hb, htaken.2.2.1⟩
    | inr hold => exact h.mem k hold
  refine ⟨?_, fun k hk => ?_, fun m hm hml hrx => ?_, fun hself => ?_, fun hself => ?_⟩
  · rw [choice_append, h.best]
    simp only [better, hnew, getD_some]
  · exact ⟨mem_append_left [l] (hmem k hk).1, (hmem k hk).2⟩
  · cases mem_append.mp hm with
    | inl hin =>
      by_cases hmb : m = b
      · rw [hmb] at hrx ⊢
        exact covers_tryBackup hbl hrx
      · exact (h.covers m hin hmb hrx).tryBackup _ _
    | inr hlast => exact absurd (mem_singleton.mp hlast) hml
  · exact absurd (hmem l hself).1 hl
  · exact absurd hself (not_selfBackup_last hl)

/-- The best link stays by the comparator. -/
theorem Reserve.compared (hnew : s.newBestLink cfg b l = some b) :
    Reserve cfg s (ls ++ [l]) b (s.tryBackup true (some b) l currBackup) := by
  have hb := choice_mem h.best
  have hne : b ≠ l := fun heq => hl (heq ▸ hb)
  have hsame := sameKind_of_newBestLink hnew hne
  have hbl : some b ≠ some l := fun heq => hne (Option.some.inj heq)
  refine ⟨?_, fun k hk => ?_, fun m hm hmb hrx => ?_, ?_⟩
  · rw [choice_append, h.best]
    simp only [better, hnew, getD_some]
  · cases tryBackup_some hk with
    | inl htaken =>
      rw [htaken.1]
      exact ⟨mem_append_right ls mem_cons_self, htaken.2.2.1⟩
    | inr hold => exact ⟨mem_append_left [l] (h.mem k hold).1, (h.mem k hold).2⟩
  · cases mem_append.mp hm with
    | inl hin => exact (h.covers m hin hmb hrx).tryBackup _ _
    | inr hlast =>
      rw [mem_singleton.mp hlast] at hrx ⊢
      exact covers_tryBackup hbl hrx
  · have hle : s.handleOf b ≤ s.handleOf l := hsame.2 ▸ BitVec.le_refl _
    have hkeep : s.tryBackup true (some b) l currBackup = some b ↔ currBackup = some b := by
      constructor
      · intro hk
        cases tryBackup_some hk with
        | inl htaken => exact absurd htaken.1 hne
        | inr hold => exact hold
      · intro hold
        rw [tryBackup_of_kept (Or.inr (Or.inr ⟨b, hold, hle⟩)), hold]
    rw [hkeep, h.self, selfBackup_append hb]
    exact ⟨fun hself => Or.inl ⟨hself, fun _ => hle⟩, fun hself =>
      hself.elim (fun hls => hls.1) fun hlast => absurd hsame hlast.2.1⟩

/-- The best link stays, and the scan takes it for one that is replaced. -/
theorem Reserve.kept (hnew : s.newBestLink cfg b l = none) :
    Reserve cfg s (ls ++ [l]) b (s.tryBackup true none b (s.tryBackup true none l currBackup)) := by
  have hb := choice_mem h.best
  have hne : b ≠ l := fun heq => hl (heq ▸ hb)
  have hother : ¬s.SameKind b l := fun hsame => by
    rw [newBestLink_of_sameKind hsame] at hnew
    exact some_ne_none _ hnew
  have hfirst : ∀ k, s.tryBackup true none l currBackup = some k →
      k ∈ ls ++ [l] ∧ s.rxLink k = true := by
    intro k hk
    cases tryBackup_some hk with
    | inl htaken =>
      rw [htaken.1]
      exact ⟨mem_append_right ls mem_cons_self, htaken.2.2.1⟩
    | inr hold => exact ⟨mem_append_left [l] (h.mem k hold).1, (h.mem k hold).2⟩
  have hcovers : ∀ m ∈ ls ++ [l], m ≠ b → s.rxLink m = true →
      s.Covers (s.tryBackup true none l currBackup) (s.handleOf m) := by
    intro m hm hmb hrx
    cases mem_append.mp hm with
    | inl hin => exact (h.covers m hin hmb hrx).tryBackup _ _
    | inr hlast =>
      rw [mem_singleton.mp hlast] at hrx ⊢
      exact covers_tryBackup (some_ne_none l).symm hrx
  refine ⟨?_, fun k hk => ?_, fun m hm hmb hrx => (hcovers m hm hmb hrx).tryBackup _ _, ?_⟩
  · rw [choice_append, h.best]
    simp only [better, hnew, Option.getD_none]
  · cases tryBackup_some hk with
    | inl htaken => exact htaken.1 ▸ ⟨mem_append_left [l] hb, htaken.2.2.1⟩
    | inr hold => exact hfirst k hold
  · rw [selfBackup_append hb, ← h.self]
    constructor
    · intro hk
      cases tryBackup_some hk with
      | inl htaken =>
        obtain ⟨_, _, hrx, hlow⟩ := htaken
        refine Or.inr ⟨hrx, hother, fun m hm hmb hmrx => ?_⟩
        obtain ⟨x, hx, hle⟩ := hcovers m hm hmb hmrx
        exact Nat.lt_of_lt_of_le (hlow x hx) hle
      | inr hold =>
        cases tryBackup_some hold with
        | inl htaken => exact absurd htaken.1 hne
        | inr hprev =>
          refine Or.inl ⟨hprev, fun hrx => Nat.le_of_not_lt fun hlt => ?_⟩
          have htaken := tryBackup_of_taken (some_ne_none l).symm hrx
            fun x hx => Option.some.inj (hprev.symm.trans hx) ▸ hlt
          exact hne (Option.some.inj (hold.symm.trans htaken))
    · intro hself
      cases hself with
      | inl hprev =>
        have hstay : s.tryBackup true none l currBackup = some b := by
          rw [tryBackup_of_kept _, hprev.1]
          cases hrx : s.rxLink l with
          | false => exact Or.inr (Or.inl rfl)
          | true => exact Or.inr (Or.inr ⟨b, hprev.1, hprev.2 hrx⟩)
        rw [hstay, tryBackup_of_kept (Or.inr (Or.inr ⟨b, rfl, BitVec.le_refl _⟩))]
      | inr hlast =>
        obtain ⟨hrx, _, hlow⟩ := hlast
        by_cases hself : s.tryBackup true none l currBackup = some b
        · rw [hself, tryBackup_of_kept (Or.inr (Or.inr ⟨b, rfl, BitVec.le_refl _⟩))]
        · refine tryBackup_of_taken (some_ne_none b).symm hrx fun k hk => ?_
          have hmem := hfirst k hk
          exact hlow k hmem.1 (fun heq => hself (heq ▸ hk)) hmem.2

end

/-! ## The older version -/

theorem unpassed_append (h : s.choice cfg ls = some b) :
    s.Unpassed cfg (ls ++ [l]) ↔ s.Unpassed cfg ls ∧ s.passed cfg b l = none := by
  constructor
  · intro hall
    refine ⟨fun p b' x q hsplit hp => ?_, hall ls b l [] rfl h⟩
    refine hall p b' x (q ++ [l]) ?_ hp
    rw [hsplit, append_assoc, cons_append]
  · intro ⟨hls, hl⟩ p b' x q hsplit hp
    cases eq_nil_or_concat q with
    | inl hq =>
      rw [hq] at hsplit
      have ⟨heq, hx⟩ := append_inj' hsplit rfl
      rw [← heq, h] at hp
      rw [← Option.some.inj hp, ← (List.cons.inj hx).1]
      exact hl
    | inr hq =>
      have ⟨q', y, hq'⟩ := hq
      rw [hq', concat_eq_append, ← cons_append, ← append_assoc] at hsplit
      exact hls p b' x q' (append_inj' hsplit rfl).1 hp

theorem firstPassed_append (h : s.choice cfg ls = some b) :
    s.FirstPassed cfg (ls ++ [l]) k ↔
      s.FirstPassed cfg ls k ∨ (s.Unpassed cfg ls ∧ s.passed cfg b l = some k) := by
  constructor
  · intro ⟨p, b', x, q, hsplit, hp, hk, hunpassed⟩
    cases eq_nil_or_concat q with
    | inl hq =>
      rw [hq] at hsplit
      have ⟨heq, hx⟩ := append_inj' hsplit rfl
      rw [← heq, h] at hp
      rw [← Option.some.inj hp, ← (List.cons.inj hx).1] at hk
      exact Or.inr ⟨heq ▸ hunpassed, hk⟩
    | inr hq =>
      have ⟨q', y, hq'⟩ := hq
      rw [hq', concat_eq_append, ← cons_append, ← append_assoc] at hsplit
      exact Or.inl ⟨p, b', x, q', (append_inj' hsplit rfl).1, hp, hk, hunpassed⟩
  · intro hk
    cases hk with
    | inl hls =>
      have ⟨p, b', x, q, hsplit, hp, hk, hunpassed⟩ := hls
      refine ⟨p, b', x, q ++ [l], ?_, hp, hk, hunpassed⟩
      rw [hsplit, append_assoc, cons_append]
    | inr hlast => exact ⟨ls, b, l, [], rfl, h, hlast.2, hlast.1⟩

theorem FirstPassed.not_unpassed (h : s.FirstPassed cfg ls k) : ¬s.Unpassed cfg ls := by
  intro hall
  have ⟨p, b, l, q, hsplit, hp, hk, _⟩ := h
  exact absurd (hk.symm.trans (hall p b l q hsplit hp)) (some_ne_none k)

theorem passed_some (h : s.passed cfg b l = some k) : (k = b ∨ k = l) ∧ s.rxLink k = true := by
  rw [passed] at h
  split_ifs at h with hb hl
  · rw [← Option.some.inj h]
    exact ⟨Or.inl rfl, hb.1⟩
  · rw [← Option.some.inj h]
    exact ⟨Or.inr rfl, hl.1⟩

theorem passed_none (h : s.passed cfg b l = none) :
    (s.rxLink b = true → s.newBestLink cfg b l = some b) ∧
      (s.rxLink l = true → s.newBestLink cfg b l = some l) := by
  rw [passed] at h
  split_ifs at h with hb hl
  exact ⟨fun hrx => not_not.mp fun hne => hb ⟨hrx, hne⟩,
    fun hrx => not_not.mp fun hne => hl ⟨hrx, hne⟩⟩

theorem tryBackup_older (newBest : Option LinkId) (l : LinkId) (currBackup : Option LinkId) :
    s.tryBackup false newBest l currBackup =
      if s.rxLink l ∧ newBest ≠ some l then some l else currBackup := by
  have hiff : ((newBest ≠ some l && isRx (s.links l).linkOptions &&
      s.backupGivesWay false currBackup l) = true) ↔ (s.rxLink l = true ∧ newBest ≠ some l) := by
    simp [rxLink, backupGivesWay, and_comm]
  rw [tryBackup]
  by_cases htaken : s.rxLink l = true ∧ newBest ≠ some l
  · rw [if_pos htaken, if_pos (hiff.mpr htaken)]
  · rw [if_neg htaken, if_neg fun h => htaken (hiff.mp h)]

theorem newBackup_older (b l : LinkId) (currBackup : Option LinkId) :
    s.newBackup false (s.newBestLink cfg b l) b l currBackup =
      currBackup.or (s.passed cfg b l) := by
  cases currBackup with
  | some k => rfl
  | none => rw [newBackup, if_pos (by decide), tryBackup_older, tryBackup_older, passed, none_or]

/-- What is known of the backup that the older version keeps beside the best link. -/
structure First (cfg : ScanConfig) (s : TschSchedule) (ls : List LinkId) (b : LinkId)
    (currBackup : Option LinkId) : Prop where
  best : s.choice cfg ls = some b
  unpassed : currBackup = none ↔ s.Unpassed cfg ls
  first : ∀ k, currBackup = some k ↔ s.FirstPassed cfg ls k
  mem : ∀ k, currBackup = some k → k ∈ ls ∧ s.rxLink k = true
  alone : currBackup = none → ∀ m ∈ ls, s.rxLink m = true → m = b

theorem First.append (h : First cfg s ls b currBackup) (l : LinkId) :
    First cfg s (ls ++ [l]) (s.better cfg b l) (currBackup.or (s.passed cfg b l)) := by
  have hbest : s.choice cfg (ls ++ [l]) = some (s.better cfg b l) := by
    rw [choice_append, h.best]
  cases hbackup : currBackup with
  | some k =>
    have hk := (h.first k).mp hbackup
    rw [Option.some_or]
    refine ⟨hbest, ?_, fun x => ?_, fun x hx => ?_, fun hnone => absurd hnone (some_ne_none k)⟩
    · rw [unpassed_append h.best]
      exact ⟨fun hnone => absurd hnone (some_ne_none k),
        fun hall => absurd hall.1 hk.not_unpassed⟩
    · rw [firstPassed_append h.best, ← h.first x, hbackup]
      exact ⟨Or.inl, fun hx => hx.elim id fun hlast => absurd hlast.1 hk.not_unpassed⟩
    · have hmem := h.mem x (hbackup.trans hx)
      exact ⟨mem_append_left [l] hmem.1, hmem.2⟩
  | none =>
    have hunpassed := h.unpassed.mp hbackup
    rw [none_or]
    refine ⟨hbest, ?_, fun x => ?_, fun x hx => ?_, fun hnone m hm hrx => ?_⟩
    · rw [unpassed_append h.best]
      exact ⟨fun hnone => ⟨hunpassed, hnone⟩, fun hall => hall.2⟩
    · rw [firstPassed_append h.best]
      exact ⟨fun hx => Or.inr ⟨hunpassed, hx⟩,
        fun hx => hx.elim (fun hls => absurd hunpassed hls.not_unpassed) fun hlast => hlast.2⟩
    · have ⟨hwhich, hrx⟩ := passed_some hx
      refine ⟨?_, hrx⟩
      cases hwhich with
      | inl hxb => exact mem_append_left [l] (hxb ▸ choice_mem h.best)
      | inr hxl => exact mem_append_right ls (mem_singleton.mpr hxl)
    · have ⟨hb, hl⟩ := passed_none hnone
      rw [better]
      cases mem_append.mp hm with
      | inl hin =>
        have hmb := h.alone hbackup m hin hrx
        rw [hb (hmb ▸ hrx)]
        exact hmb
      | inr hlast =>
        have hml := mem_singleton.mp hlast
        rw [hl (hml ▸ hrx)]
        exact hml

/-! ## The scan -/

/-- The backup of either version beside the best link. -/
def Beside (cfg : ScanConfig) (s : TschSchedule) (ls : List LinkId) (b : LinkId)
    (currBackup : Option LinkId) : Prop :=
  if cfg.hckApplyLatestContiki then Reserve cfg s ls b currBackup else First cfg s ls b currBackup

/-- A link alone at its time. -/
theorem beside_alone (cfg : ScanConfig) (s : TschSchedule) (l : LinkId) :
    Beside cfg s [l] l none := by
  have hlone : ∀ (p : List LinkId) (x : LinkId) (q : List LinkId), [l] = p ++ x :: q → p = [] := by
    intro p x q hsplit
    cases p with
    | nil => rfl
    | cons y p =>
      have hnil := (List.cons.inj hsplit).2
      exact absurd hnil.symm (append_ne_nil_of_right_ne_nil p (cons_ne_nil x q))
  have hchoice : s.choice cfg [l] = some l := rfl
  have hunpassed : s.Unpassed cfg [l] := by
    intro p b x q hsplit hp
    rw [hlone p x q hsplit] at hp
    exact absurd hp (some_ne_none b).symm
  rw [Beside]
  split_ifs
  · refine ⟨hchoice, fun k hk => absurd hk (some_ne_none k).symm, fun m hm hml => ?_,
      fun hk => absurd hk (some_ne_none l).symm, fun hself => ?_⟩
    · exact absurd (mem_singleton.mp hm) hml
    · have ⟨_, p, x, q, hsplit, hp, _⟩ := hself
      rw [hlone p x q hsplit] at hp
      exact absurd hp not_mem_nil
  · exact ⟨hchoice, ⟨fun _ => hunpassed, fun _ => rfl⟩,
      fun k => ⟨fun hk => absurd hk (some_ne_none k).symm,
        fun hk => absurd hunpassed hk.not_unpassed⟩,
      fun k hk => absurd hk (some_ne_none k).symm, fun _ m hm _ => mem_singleton.mp hm⟩

/-- One more link at the same time. -/
theorem Beside.append (h : Beside cfg s ls b currBackup) (hl : l ∉ ls) :
    Beside cfg s (ls ++ [l]) (s.better cfg b l)
      (s.newBackup cfg.hckApplyLatestContiki (s.newBestLink cfg b l) b l currBackup) := by
  rw [Beside] at h ⊢
  cases hlatest : cfg.hckApplyLatestContiki with
  | false =>
    rw [hlatest, if_neg (by decide)] at h
    rw [if_neg (by decide), newBackup_older]
    exact h.append l
  | true =>
    rw [hlatest, if_pos rfl] at h
    rw [if_pos rfl, newBackup, Bool.true_or, if_pos rfl]
    have hb := choice_mem h.best
    have hne : b ≠ l := fun heq => hl (heq ▸ hb)
    cases hnew : s.newBestLink cfg b l with
    | none =>
      rw [better, hnew]
      exact h.kept hl hnew
    | some m =>
      cases newBestLink_mem hnew with
      | inl hmb =>
        rw [hmb] at hnew ⊢
        rw [better, hnew, tryBackup_of_kept (Or.inl rfl)]
        exact h.compared hl hnew
      | inr hml =>
        rw [hml] at hnew ⊢
        rw [better, hnew, tryBackup_of_kept (Or.inl rfl)]
        exact h.replaced hl hnew

/-- **The scan keeps a backup** beside the best link. -/
theorem beside_foldl {os : List (LinkId × BitVec 16)} (hnodup : (os.map (·.1)).Nodup) :
    ∀ b, (os.foldl (s.visitLink cfg) .nothing).currBest = some b →
      Beside cfg s (withTime os (os.foldl (s.visitLink cfg) .nothing).timeToCurrBest) b
        (os.foldl (s.visitLink cfg) .nothing).currBackup := by
  induction os using List.reverseRecOn with
  | nil => exact fun b hb => absurd hb (some_ne_none b).symm
  | append_singleton os o ih =>
    rw [map_append, nodup_append] at hnodup
    have hbest := best_foldl cfg s os
    rw [foldl_append]
    have ih := ih hnodup.1
    generalize os.foldl (s.visitLink cfg) .nothing = sel at ih hbest
    have halone : (∀ o' ∈ os, o.2 < o'.2) →
        Beside cfg s (withTime (os ++ [(o.1, o.2)]) o.2) o.1 none := by
      intro hlater
      rw [withTime_append_same, withTime_of_lt hlater]
      exact beside_alone cfg s o.1
    intro b hb
    rw [foldl_cons, foldl_nil] at hb ⊢
    cases hcurr : sel.currBest with
    | none =>
      rw [visitLink, hcurr] at hb ⊢
      rw [← Option.some.inj hb]
      exact halone fun o' ho' => absurd (hbest.1 hcurr ▸ ho') not_mem_nil
    | some c =>
      have hleast := (hbest.2 c hcurr).1
      rw [visitLink, hcurr] at hb ⊢
      simp only at hb ⊢
      split_ifs at hb ⊢ with hlt heq
      · rw [← Option.some.inj hb]
        exact halone fun o' ho' => Nat.lt_of_lt_of_le hlt (hleast o' ho')
      · rw [← Option.some.inj hb]
        have hout : o.1 ∉ withTime os sel.timeToCurrBest := fun hin => by
          obtain ⟨o', ho', hfst⟩ := mem_map.mp hin
          exact hnodup.2.2 o'.1 (mem_map.mpr ⟨o', (mem_filter.mp ho').1, rfl⟩) o.1
            (mem_singleton.mpr rfl) hfst
        have happend := (ih c hcurr).append hout
        have hos : os ++ [o] = os ++ [(o.1, sel.timeToCurrBest)] := by rw [← heq]
        rw [← withTime_append_same] at happend
        rw [hos]
        exact happend
      · have hsame := withTime_append_ne os o.1 heq
        rw [hcurr] at hb
        rw [← Option.some.inj hb]
        exact (congrArg (fun ls => Beside cfg s ls c sel.currBackup) hsame).mpr (ih c hcurr)

theorem map_fst_occurrences (s : TschSchedule) (asn : TschAsn) :
    (s.occurrences asn).map (·.1) = s.installed := by
  simp only [occurrences, occurrencesIn, installed, map_flatMap, map_map]
  congr 1
  funext sf
  exact map_id' sf.linksList

/-- There is only one next active link. -/
theorem NextActive.unique {time t : BitVec 16} (h : NextActive cfg s asn l time)
    (h' : NextActive cfg s asn m t) : l = m ∧ time = t := by
  have htime : time = t := BitVec.le_antisymm (h.first m t h'.occurs) (h'.first l time h.occurs)
  rw [← htime] at h'
  have hl := (mem_filter.mp h.kept.mem).1
  have hm := (mem_filter.mp h'.kept.mem).1
  have htx : s.txLink m = s.txLink l :=
    Bool.eq_iff_iff.mpr ⟨fun hmtx => h.tx ⟨m, hm, hmtx⟩, fun hltx => h'.tx ⟨l, hl, hltx⟩⟩
  have hkept := h'.kept
  rw [htx] at hkept
  have hslotframe := h.kept.slotframe
  have hslotframe' := hkept.slotframe
  have hhandle : s.handleOf l = s.handleOf m := by
    split_ifs at hslotframe hslotframe'
    · exact hslotframe.trans hslotframe'.symm
    · exact BitVec.le_antisymm (hslotframe m hkept.mem) (hslotframe' l h.kept.mem)
  have hcomparator := h.kept.comparator
  rw [hhandle] at hcomparator
  exact ⟨Option.some.inj (hcomparator.symm.trans hkept.comparator), htime⟩

/-- The backup of the latest version is right unless the best link is its own. -/
theorem Reserve.right_iff (h : Reserve cfg s ls b currBackup) :
    ((∀ k, currBackup = some k → k ∈ ls ∧ s.rxLink k = true ∧ k ≠ b ∧
        ∀ m ∈ ls, s.rxLink m = true → m ≠ b → s.handleOf k ≤ s.handleOf m) ∧
      ((∃ m ∈ ls, s.rxLink m = true ∧ m ≠ b) → currBackup.isSome = true)) ↔
      ¬s.SelfBackup ls b := by
  constructor
  · intro hright hself
    exact (hright.1 b (h.self.mpr hself)).2.2.1 rfl
  · intro hnot
    refine ⟨fun k hk => ⟨(h.mem k hk).1, (h.mem k hk).2, fun hkb => ?_, fun m hm hrx hmb => ?_⟩,
      fun ⟨m, hm, hrx, hmb⟩ => ?_⟩
    · exact hnot (h.self.mp (hkb ▸ hk))
    · have ⟨x, hx, hle⟩ := h.covers m hm hmb hrx
      rw [Option.some.inj (hk.symm.trans hx)]
      exact hle
    · have ⟨x, hx, _⟩ := h.covers m hm hmb hrx
      exact Option.isSome_of_eq_some hx

/-- The backup of the older version is right if the first candidate is. -/
theorem First.right_iff (h : First cfg s ls b currBackup) :
    ((∀ k, currBackup = some k → k ∈ ls ∧ s.rxLink k = true ∧ k ≠ b ∧
        ∀ m ∈ ls, s.rxLink m = true → m ≠ b → s.handleOf k ≤ s.handleOf m) ∧
      ((∃ m ∈ ls, s.rxLink m = true ∧ m ≠ b) → currBackup.isSome = true)) ↔
      ∀ k, s.FirstPassed cfg ls k → k ≠ b ∧
        ∀ m ∈ ls, s.rxLink m = true → m ≠ b → s.handleOf k ≤ s.handleOf m := by
  constructor
  · intro hright k hk
    exact (hright.1 k ((h.first k).mpr hk)).2.2
  · intro hcond
    refine ⟨fun k hk => ⟨(h.mem k hk).1, (h.mem k hk).2, hcond k ((h.first k).mp hk)⟩,
      fun ⟨m, hm, hrx, hmb⟩ => ?_⟩
    by_contra hnone
    exact hmb (h.alone (Option.not_isSome_iff_eq_none.mp hnone) m hm hrx)

/-- **Exactly when the backup link is right.** It is the receiving link of the lowest slotframe at
the time of the link returned, other than that link, and there is one if there is such a link: with
the latest version unless the link returned becomes its own backup, and with the older one if the
first receiving link passed over is right. -/
theorem backup_link (hok : s.InPlace) :
    s.BackupRight asn (s.tschScheduleGetNextActiveLink cfg asn) ↔ s.BackupCondition cfg asn := by
  cases hlock : s.tschLocked with
  | true =>
    rw [tschScheduleGetNextActiveLink, hlock, if_pos rfl]
    exact ⟨fun _ => Or.inl hlock, fun _ b _ hb => absurd hb (Option.some_ne_none b).symm⟩
  | false =>
    have hbest := best_foldl cfg s (s.occurrences asn)
    have hbeside := @beside_foldl cfg s (s.occurrences asn)
      (by rw [map_fst_occurrences]; exact hok.nodup)
    rw [getNextActiveLink_eq hlock]
    simp only
    generalize (s.occurrences asn).foldl (s.visitLink cfg) .nothing = sel at hbest hbeside
    cases hcurr : sel.currBest with
    | none =>
      refine ⟨fun _ => Or.inr fun b time hnext => ?_, fun _ b _ hb => ?_⟩
      · have hin := (occurs_iff hok).mp hnext.occurs
        rw [hbest.1 hcurr] at hin
        exact absurd hin List.not_mem_nil
      · exact absurd hb (Option.some_ne_none b).symm
    | some b =>
      have hnext := hok.nextActive hbest hcurr
      have hbeside := hbeside b hcurr
      have hright : s.BackupRight asn ⟨some b, some sel.timeToCurrBest, sel.currBackup⟩ ↔
          if cfg.hckApplyLatestContiki then ¬s.SelfBackup (s.linksAt asn sel.timeToCurrBest) b
          else ∀ k, s.FirstPassed cfg (s.linksAt asn sel.timeToCurrBest) k → k ≠ b ∧
            ∀ m ∈ s.linksAt asn sel.timeToCurrBest, s.rxLink m = true → m ≠ b →
              s.handleOf k ≤ s.handleOf m := by
        have hone : s.BackupRight asn ⟨some b, some sel.timeToCurrBest, sel.currBackup⟩ ↔ _ :=
          ⟨fun h => h b sel.timeToCurrBest rfl rfl, fun h b' time hb htime => by
            rw [← Option.some.inj hb, ← Option.some.inj htime]
            exact h⟩
        rw [hone]
        rw [Beside] at hbeside
        split_ifs at hbeside ⊢
        · exact hbeside.right_iff
        · exact hbeside.right_iff
      rw [hright]
      constructor
      · intro h
        refine Or.inr fun b' time hnext' => ?_
        obtain ⟨hb, htime⟩ := hnext.unique hnext'
        rw [← hb, ← htime]
        exact h
      · intro h
        cases h with
        | inl hlocked => exact absurd (hlock.symm.trans hlocked) (by decide)
        | inr hcond => exact hcond b sel.timeToCurrBest hnext

/-- Two receiving links of different slotframes at one time. -/
def twoRxLinks : TschSchedule where
  slotframeList := [⟨0, 5, [0]⟩, ⟨1, 7, [1]⟩]
  links l := ⟨if l = 0 then 0 else 1, tschBroadcastAddress, 1, 0, linkOptionRx⟩
  used _ := true
  nbrs _ := none
  tschLocked := false

theorem inPlace_twoRxLinks : twoRxLinks.InPlace where
  handles := by decide
  nodup := by decide
  handle := by decide
  used _ _ := rfl
  inRange := by decide

theorem backup_link_two :
    twoRxLinks.BackupRight (.ofNat 34)
        (twoRxLinks.tschScheduleGetNextActiveLink ⟨false, true⟩ (.ofNat 34)) ↔
      twoRxLinks.BackupCondition ⟨false, true⟩ (.ofNat 34) :=
  backup_link inPlace_twoRxLinks

/-- **A link becomes its own backup,** and the other receiving link is lost. -/
theorem own_backup :
    twoRxLinks.tschScheduleGetNextActiveLink ⟨false, true⟩ (.ofNat 0) = ⟨some 0, some 1, some 0⟩ ∧
      ¬twoRxLinks.BackupRight (.ofNat 0)
        (twoRxLinks.tschScheduleGetNextActiveLink ⟨false, true⟩ (.ofNat 0)) := by
  have hnext : twoRxLinks.tschScheduleGetNextActiveLink ⟨false, true⟩ (.ofNat 0) =
      ⟨some 0, some 1, some 0⟩ := by decide
  rw [hnext]
  exact ⟨rfl, fun h => ((h 0 1 rfl rfl).1 0 rfl).2.2.1 rfl⟩

end Asap.Tsch.TschSchedule
