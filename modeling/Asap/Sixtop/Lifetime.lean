import Asap.Sixtop.Trans

/-!
# The lifetime of a 6P transaction

A transaction ends in the state terminating, and its block is freed by the next expiry of
its timer, wherever a frame of it still is: the state that should defer the release until
the sent callback, wait-free, is entered from the sending states only, and what
`process_trans` frees is never in one of them. A timeout while the request is in a queue
of the MAC layer therefore leaves a sent callback with a block that is free, or another
transaction's (`timeout_frees_block_at_mac`).

Where every frame of a transaction has been reported before the timer of the terminating
transaction expires, nothing is freed too early, and the rest holds as well
(`transaction_lifetime`).

## Main definitions

* `SixpTrans.remaining` — how far a transaction is from its end.
* `Inv` — the invariant; blocks whose callback is running are exempt from one part of it.
* `Moved`, `Good` — what a call of `sixp_output` does to the transactions there are.
* `ReleaseSafe` — the condition on an event.
-/

namespace Asap.Sixtop

open Asap.Lib Asap.Tsch List

/-- The position of a state in the order of the transitions. -/
def SixpTransState.rank : SixpTransState → ℕ
  | .unavailable => 0
  | .init => 1
  | .requestSending => 2
  | .requestSent => 3
  | .requestReceived => 4
  | .responseSending => 5
  | .responseSent => 6
  | .responseReceived => 7
  | .confirmationSending => 8
  | .confirmationSent => 9
  | .confirmationReceived => 10
  | .terminating => 11
  | .waitFree => 12

namespace SixpTrans

/-- A bound on the expiries of the timer until the block is freed. -/
def remaining (t : SixpTrans) : ℕ :=
  2 * (12 - t.state.rank) + if t.timer = some .process then 1 else 0

/-- A transaction in progress: its timer runs, and in the state terminating it runs
`process_trans`. -/
structure Live (t : SixpTrans) : Prop where
  available : t.state ≠ .unavailable
  notWaitFree : t.state ≠ .waitFree
  timer : t.timer.isSome
  terminating : t.state = .terminating → t.timer = some .process

/-- The transaction does not wait for a packet of this node. -/
def Quiet (t : SixpTrans) : Prop := t.state ≠ .requestReceived ∧ t.state ≠ .responseReceived

end SixpTrans

namespace Sixp

variable {maxTransactions : ℕ} {X : Set TransId} {T : Set TransId} {s s' u : Sixp} {b : TransId}
  {react : Sixp → Sixp} {newState : SixpTransState}

/-! ## The invariant -/

/-- The list has the blocks in use, which are live; what the MAC layer holds is in use and
was not freed since; and a registered callback has not been called, unless the block is
one of `X`. -/
structure Inv (X : Set TransId) (s : Sixp) : Prop where
  listed : ∀ b, b ∈ s.transList ↔ s.used b
  nodup : s.transList.Nodup
  unused : ∀ b, s.used b = false → s.trans b = .zero
  live : ∀ b, s.used b → (s.trans b).Live
  counted : ∀ b, s.allocs b = s.frees b + if s.used b then 1 else 0
  pending : ∀ a ∈ s.macPending, s.used a.trans ∧ s.allocs a.trans = a.alloc
  registered : ∀ b r, (s.trans b).callback = some r → r < s.registered
  fresh : ∀ b ∉ X, ∀ r, (s.trans b).callback = some r → r ∉ s.invoked
  distinct : ∀ b b' r, (s.trans b).callback = some r → (s.trans b').callback = some r → b = b'
  invoked : ∀ r ∈ s.invoked, r < s.registered
  once : s.invoked.Nodup

/-- A transaction in use has moved on, or is where it was. -/
structure Aged (b : TransId) (s s' : Sixp) : Prop where
  used : s'.used b
  allocs : s'.allocs b = s.allocs b
  frees : s'.frees b = s.frees b
  remaining : (s'.trans b).remaining ≤ (s.trans b).remaining

/-- Transactions outside `T` move on, and those that wait for no packet of this node are not
touched. -/
structure Moved (T : Set TransId) (s s' : Sixp) : Prop where
  mono : ∀ b, s.frees b ≤ s'.frees b
  aged : ∀ b ∉ T, s.used b → Aged b s s'
  trans : ∀ b ∉ T, s.used b → (s.trans b).Quiet → s'.trans b = s.trans b
  pending : ∀ a ∈ s'.macPending, a.trans ∉ T → s.used a.trans → (s.trans a.trans).Quiet →
    a ∈ s.macPending

theorem Aged.refl (h : s.used b) : Aged b s s := ⟨h, rfl, rfl, le_rfl⟩

theorem Aged.trans (h : Aged b s s') (h' : Aged b s' u) : Aged b s u :=
  ⟨h'.used, h'.allocs.trans h.allocs, h'.frees.trans h.frees, h'.remaining.trans h.remaining⟩

theorem Moved.refl (T : Set TransId) (s : Sixp) : Moved T s s :=
  ⟨fun _ => le_rfl, fun _ _ => Aged.refl, fun _ _ _ _ => rfl, fun _ ha _ _ _ => ha⟩

theorem Moved.compose (h : Moved T s s') (h' : Moved T s' u) : Moved T s u where
  mono b := (h.mono b).trans (h'.mono b)
  aged b hb hused := (h.aged b hb hused).trans (h'.aged b hb (h.aged b hb hused).used)
  trans := by
    intro b hb hused hquiet
    have hsame := h.trans b hb hused hquiet
    exact (h'.trans b hb (h.aged b hb hused).used (hsame ▸ hquiet)).trans hsame
  pending := by
    intro a ha hT hused hquiet
    have hsame := h.trans a.trans hT hused hquiet
    exact h.pending a (h'.pending a ha hT (h.aged a.trans hT hused).used (hsame ▸ hquiet)) hT hused
      hquiet

theorem Moved.mono_set {T' : Set TransId} (h : Moved T s s') (hT : T ⊆ T') : Moved T' s s' :=
  ⟨h.mono, fun b hb => h.aged b fun hin => hb (hT hin),
    fun b hb => h.trans b fun hin => hb (hT hin),
    fun a ha hb => h.pending a ha fun hin => hb (hT hin)⟩

/-- What a callback of the scheduling function may do. -/
def Good (react : Sixp → Sixp) : Prop :=
  ∀ X s, Inv X s → Inv X (react s) ∧ Moved ∅ s (react s)

theorem good_id : Good id := fun _ s h => ⟨h, .refl ∅ s⟩

/-! ## One block changes -/

@[simp] theorem setTrans_trans_self (s : Sixp) (b : TransId) (t : SixpTrans) :
    (s.setTrans b t).trans b = t := by simp [setTrans]

theorem setTrans_trans_of_ne {b' : TransId} (s : Sixp) (t : SixpTrans) (h : b' ≠ b) :
    (s.setTrans b t).trans b' = s.trans b' := by simp [setTrans, h]

/-- A block in use is given other contents, the same callback or none. -/
theorem Inv.setTrans (h : Inv X s) (hb : s.used b) {t : SixpTrans} (ht : t.Live)
    (hcallback : t.callback = (s.trans b).callback ∨ t.callback = none) :
    Inv X (s.setTrans b t) := by
  have hcb : ∀ b' r, ((s.setTrans b t).trans b').callback = some r →
      (s.trans b').callback = some r := by
    intro b' r hr
    by_cases hb' : b' = b
    · subst hb'
      rw [setTrans_trans_self] at hr
      rcases hcallback with hsame | hnone
      · exact hsame ▸ hr
      · simp [hnone] at hr
    · rwa [setTrans_trans_of_ne s t hb'] at hr
  refine ⟨h.listed, h.nodup, ?_, ?_, h.counted, h.pending, fun b' r hr => h.registered b' r (hcb b' r hr),
    fun b' hX r hr => h.fresh b' hX r (hcb b' r hr),
    fun b₁ b₂ r h₁ h₂ => h.distinct b₁ b₂ r (hcb b₁ r h₁) (hcb b₂ r h₂), h.invoked, h.once⟩
  · intro b' hunused
    have hne : b' ≠ b := by
      rintro rfl
      simp [Sixp.setTrans, hb] at hunused
    rw [setTrans_trans_of_ne s t hne]
    exact h.unused b' hunused
  · intro b' hused
    by_cases hb' : b' = b
    · rw [hb', setTrans_trans_self]
      exact ht
    · rw [setTrans_trans_of_ne s t hb']
      exact h.live b' hused

theorem moved_setTrans (s : Sixp) (b : TransId) (t : SixpTrans) : Moved {b} s (s.setTrans b t) := by
  refine ⟨fun _ => le_rfl, ?_, ?_, fun a ha _ _ _ => ha⟩
  · intro b' hb' hused
    exact ⟨hused, rfl, rfl, by rw [setTrans_trans_of_ne s t hb']⟩
  · intro b' hb' _ _
    exact setTrans_trans_of_ne s t hb'

theorem aged_setTrans (hb : s.used b) {t : SixpTrans} (ht : t.remaining ≤ (s.trans b).remaining) :
    Aged b s (s.setTrans b t) :=
  ⟨hb, rfl, rfl, by rwa [setTrans_trans_self]⟩

/-- The sequence numbers of neighbors are no part of the invariant. -/
theorem Inv.setNextSeqno (h : Inv X s) (f : LinkAddr → Option (BitVec 8)) :
    Inv X { s with nextSeqno := f } :=
  ⟨h.listed, h.nodup, h.unused, h.live, h.counted, h.pending, h.registered, h.fresh, h.distinct,
    h.invoked, h.once⟩

theorem moved_setNextSeqno (s : Sixp) (f : LinkAddr → Option (BitVec 8)) :
    Moved T s { s with nextSeqno := f } :=
  ⟨fun _ => le_rfl, fun _ _ h => ⟨h, rfl, rfl, le_rfl⟩, fun _ _ _ _ => rfl, fun _ ha _ _ _ => ha⟩

theorem Inv.updateSeqno (h : Inv X s) (addr : LinkAddr) (f : BitVec 8 → BitVec 8) :
    Inv X (s.updateSeqno addr f) := h.setNextSeqno _

theorem moved_updateSeqno (s : Sixp) (addr : LinkAddr) (f : BitVec 8 → BitVec 8) :
    Moved T s (s.updateSeqno addr f) := moved_setNextSeqno s _

/-! ## Transitions -/

theorem mayTransit_new {mode : SixpTransMode} {state : SixpTransState}
    (h : mayTransit mode state newState) :
    newState ≠ .unavailable ∧ newState ≠ .waitFree ∧
      (state.rank < newState.rank ∨ newState = .terminating) := by
  cases newState <;> cases state <;> simp_all [mayTransit, SixpTransState.rank]

theorem SixpTransState.rank_le {state : SixpTransState} (h : state ≠ .waitFree) :
    state.rank ≤ 11 := by
  cases state <;> simp_all [SixpTransState.rank]

/-- A transition, whether or not it is allowed. -/
theorem Inv.transit (h : Inv X s) (hb : s.used b) (newState : SixpTransState) :
    Inv X (s.sixpTransTransitState b newState).2 ∧
      Moved {b} s (s.sixpTransTransitState b newState).2 ∧
      Aged b s (s.sixpTransTransitState b newState).2 ∧
      (s.sixpTransTransitState b newState).2.macPending = s.macPending ∧
      ((s.sixpTransTransitState b newState).2.trans b).callback = (s.trans b).callback := by
  simp only [sixpTransTransitState]
  split
  · rename_i hmay
    obtain ⟨hnew, hwait, hrank⟩ := mayTransit_new hmay
    have hlive := h.live b hb
    have hle := SixpTransState.rank_le hlive.notWaitFree
    have hle' := SixpTransState.rank_le hwait
    have hremaining : SixpTrans.remaining { s.trans b with state := newState, timer := some .process } ≤
        (s.trans b).remaining := by
      simp only [SixpTrans.remaining, if_true]
      rcases hrank with hrank | rfl
      · omega
      · by_cases hterm : (s.trans b).state = .terminating
        · simp [hterm, hlive.terminating hterm]
        · have hlt : (s.trans b).state.rank < 11 := by
            cases hstate : (s.trans b).state <;> simp_all [SixpTransState.rank]
          have hterminating : SixpTransState.terminating.rank = 11 := rfl
          omega
    have hlive' : SixpTrans.Live { s.trans b with state := newState, timer := some .process } :=
      ⟨hnew, hwait, rfl, fun _ => rfl⟩
    split
    · refine ⟨(h.updateSeqno _ _).setTrans hb hlive' (Or.inl rfl), ?_, ⟨hb, rfl, rfl, ?_⟩, rfl, ?_⟩
      · exact (moved_updateSeqno s _ _).compose (moved_setTrans _ b _)
      · simpa using hremaining
      · simp
    · exact ⟨h.setTrans hb hlive' (Or.inl rfl), moved_setTrans s b _, aged_setTrans hb hremaining, rfl,
        by simp⟩
  · exact ⟨h, .refl {b} s, .refl hb, rfl, rfl⟩

/-- A transition to terminating is always allowed. -/
theorem transit_terminating (s : Sixp) (b : TransId) :
    s.sixpTransTransitState b .terminating =
      (true, s.setTrans b { s.trans b with state := .terminating, timer := some .process }) := by
  simp [sixpTransTransitState, mayTransit]

/-! ## Callbacks of the scheduling function -/

/-- A block is registered a callback, or none. -/
theorem Inv.setCallback (h : Inv X s) (hb : s.used b) (func : Bool) :
    Inv (X \ {b}) (s.sixpTransSetCallback b func) := by
  have hlive := h.live b hb
  cases func with
  | false =>
    have hset : Inv X (s.setTrans b { s.trans b with callback := none }) :=
      h.setTrans hb ⟨hlive.available, hlive.notWaitFree, hlive.timer, hlive.terminating⟩ (Or.inr rfl)
    refine { hset with fresh := ?_ }
    intro b' hX r hr
    by_cases hb' : b' = b
    · simp [hb', sixpTransSetCallback] at hr
    · exact hset.fresh b' (fun hin => hX ⟨hin, hb'⟩) r hr
  | true =>
    have htrans : ∀ b', (s.sixpTransSetCallback b true).trans b' =
        if b' = b then { s.trans b with callback := some s.registered } else s.trans b' := by
      intro b'
      by_cases hb' : b' = b <;> simp [sixpTransSetCallback, Sixp.setTrans, hb']
    have hcb : ∀ b' r, ((s.sixpTransSetCallback b true).trans b').callback = some r →
        b' = b ∧ r = s.registered ∨ b' ≠ b ∧ (s.trans b').callback = some r := by
      intro b' r hr
      rw [htrans] at hr
      by_cases hb' : b' = b
      · simp only [hb', if_true, Option.some.injEq] at hr
        exact Or.inl ⟨hb', hr.symm⟩
      · simp only [hb', if_false] at hr
        exact Or.inr ⟨hb', hr⟩
    refine ⟨h.listed, h.nodup, ?_, ?_, h.counted, h.pending, ?_, ?_, ?_, ?_, h.once⟩
    · intro b' hunused
      have hne : b' ≠ b := by
        rintro rfl
        simp [sixpTransSetCallback, Sixp.setTrans, hb] at hunused
      rw [htrans, if_neg hne]
      exact h.unused b' hunused
    · intro b' hused
      rw [htrans]
      split
      · exact ⟨hlive.available, hlive.notWaitFree, hlive.timer, hlive.terminating⟩
      · exact h.live b' hused
    · intro b' r hr
      rcases hcb b' r hr with ⟨-, rfl⟩ | ⟨-, hr⟩
      · exact Nat.lt_succ_self _
      · exact Nat.lt_succ_of_lt (h.registered b' r hr)
    · intro b' hX r hr hin
      rcases hcb b' r hr with ⟨-, rfl⟩ | ⟨hne, hr⟩
      · exact lt_irrefl _ (h.invoked _ hin)
      · exact h.fresh b' (fun hin => hX ⟨hin, hne⟩) r hr hin
    · intro b₁ b₂ r h₁ h₂
      rcases hcb b₁ r h₁ with ⟨hb₁, hr₁⟩ | ⟨-, hold₁⟩ <;>
        rcases hcb b₂ r h₂ with ⟨hb₂, hr₂⟩ | ⟨-, hold₂⟩
      · rw [hb₁, hb₂]
      · exact absurd (h.registered b₂ r hold₂) (by omega)
      · exact absurd (h.registered b₁ r hold₁) (by omega)
      · exact h.distinct b₁ b₂ r hold₁ hold₂
    · intro r hr
      exact Nat.lt_succ_of_lt (h.invoked r hr)

theorem setCallback_moved (hb : s.used b) (func : Bool) :
    Moved {b} s (s.sixpTransSetCallback b func) ∧ Aged b s (s.sixpTransSetCallback b func) ∧
      ((s.sixpTransSetCallback b func).trans b).state = (s.trans b).state ∧
      (s.sixpTransSetCallback b func).macPending = s.macPending := by
  cases func with
  | false =>
    exact ⟨moved_setTrans s b _, aged_setTrans hb le_rfl, by simp [sixpTransSetCallback], rfl⟩
  | true =>
    have hmoved := moved_setTrans s b { s.trans b with callback := some s.registered }
    refine ⟨⟨hmoved.mono, fun b' hb' hused => ?_, hmoved.trans, hmoved.pending⟩, ⟨hb, rfl, rfl, ?_⟩, ?_,
      rfl⟩
    · have haged := hmoved.aged b' hb' hused
      exact ⟨haged.used, haged.allocs, haged.frees, haged.remaining⟩
    · simp [sixpTransSetCallback, Sixp.setTrans, SixpTrans.remaining]
    · simp [sixpTransSetCallback, Sixp.setTrans]

/-- The registered callback is called, which it was not before. -/
theorem Inv.invokeCallback (h : Inv X s) (hreact : Good react) (hX : b ∉ X) :
    Inv (insert b X) (s.sixpTransInvokeCallback react b) ∧
      Moved ∅ s (s.sixpTransInvokeCallback react b) := by
  simp only [sixpTransInvokeCallback]
  split
  · rename_i hnone
    refine ⟨{ h with fresh := ?_ }, .refl ∅ s⟩
    intro b' hb'
    exact h.fresh b' fun hin => hb' (Set.mem_insert_of_mem b hin)
  · rename_i r hr
    have hinv : Inv (insert b X) { s with invoked := s.invoked ++ [r] } := by
      refine { h with fresh := ?_, invoked := ?_, once := ?_ }
      · intro b' hb' r' hr' hin
        rcases List.mem_append.mp hin with hin | hin
        · exact h.fresh b' (fun hin => hb' (Set.mem_insert_of_mem b hin)) r' hr' hin
        · rw [List.mem_singleton.mp hin] at hr'
          exact hb' (h.distinct b' b r hr' hr ▸ Set.mem_insert b X)
      · intro r' hr'
        rcases List.mem_append.mp hr' with hr' | hr'
        · exact h.invoked r' hr'
        · rw [List.mem_singleton.mp hr']
          exact h.registered b r hr
      · exact List.nodup_append'.mpr ⟨h.once, by simp, by simpa using h.fresh b hX r hr⟩
    obtain ⟨hafter, hmoved⟩ := hreact _ _ hinv
    exact ⟨hafter, ⟨hmoved.mono, fun b' hb' hused =>
        ⟨(hmoved.aged b' hb' hused).used, (hmoved.aged b' hb' hused).allocs,
          (hmoved.aged b' hb' hused).frees, (hmoved.aged b' hb' hused).remaining⟩,
      hmoved.trans, hmoved.pending⟩⟩

/-! ## The end of a transaction -/

/-- A block after its release. -/
def freed (s : Sixp) (b : TransId) : Sixp :=
  { s with
    trans := Function.update s.trans b .zero
    transList := s.transList.erase b
    used := Function.update s.used b false
    frees := Function.update s.frees b (s.frees b + 1) }

theorem processTrans_terminating (h : (s.trans b).state = .terminating) :
    s.processTrans b = s.freed b := by
  simp [processTrans, sixpTransFree, Sixp.setTrans, freed, h]

/-- A block that the MAC layer does not hold is released. -/
theorem Inv.freed (h : Inv (insert b X) s) (hb : s.used b) (hheld : ∀ a ∈ s.macPending, a.trans ≠ b) :
    Inv X (s.freed b) ∧ Moved {b} s (s.freed b) ∧ (s.freed b).frees b = s.frees b + 1 := by
  have hcb : ∀ b' r, ((s.freed b).trans b').callback = some r →
      b' ≠ b ∧ (s.trans b').callback = some r := by
    intro b' r hr
    by_cases hb' : b' = b
    · simp [Sixp.freed, hb', SixpTrans.zero] at hr
    · exact ⟨hb', by simpa [Sixp.freed, hb'] using hr⟩
  refine ⟨⟨?_, h.nodup.erase b, ?_, ?_, ?_, ?_, ?_, ?_, ?_, h.invoked, h.once⟩,
    ⟨?_, ?_, ?_, fun a ha _ _ _ => ha⟩, by simp [Sixp.freed]⟩
  · intro b'
    by_cases hb' : b' = b
    · simp [Sixp.freed, hb', h.nodup.mem_erase_iff]
    · simp [Sixp.freed, hb', h.nodup.mem_erase_iff, h.listed b']
  · intro b' hunused
    by_cases hb' : b' = b
    · simp [Sixp.freed, hb']
    · simpa [Sixp.freed, hb'] using h.unused b' (by simpa [Sixp.freed, hb'] using hunused)
  · intro b' hused
    by_cases hb' : b' = b
    · simp [Sixp.freed, hb'] at hused
    · simpa [Sixp.freed, hb'] using h.live b' (by simpa [Sixp.freed, hb'] using hused)
  · intro b'
    have hcount := h.counted b'
    by_cases hb' : b' = b
    · subst hb'
      simpa [Sixp.freed, hb] using hcount
    · simpa [Sixp.freed, hb'] using hcount
  · intro a ha
    have hne := hheld a ha
    simpa [Sixp.freed, hne] using h.pending a ha
  · intro b' r hr
    exact h.registered b' r (hcb b' r hr).2
  · intro b' hX r hr
    obtain ⟨hne, hr⟩ := hcb b' r hr
    exact h.fresh b' (fun hin => (Set.mem_insert_iff.mp hin).elim hne hX) r hr
  · intro b₁ b₂ r h₁ h₂
    exact h.distinct b₁ b₂ r (hcb b₁ r h₁).2 (hcb b₂ r h₂).2
  · intro b'
    by_cases hb' : b' = b
    · simp [Sixp.freed, hb']
    · simp [Sixp.freed, hb']
  · intro b' hb' hused
    have hne : b' ≠ b := hb'
    exact ⟨by simpa [Sixp.freed, hne] using hused, rfl, by simp [Sixp.freed, hne],
      by simp [Sixp.freed, hne]⟩
  · intro b' hb' _ _
    have hne : b' ≠ b := hb'
    simp [Sixp.freed, hne]

theorem Inv.of_insert (h : Inv X s) (b : TransId) : Inv (insert b X) s :=
  { h with fresh := fun b' hb' => h.fresh b' fun hin => hb' (Set.mem_insert_of_mem b hin) }

/-- `process_trans`, of a transaction that the MAC layer does not hold if it is the last
time. The block is released, or its timer runs on. -/
theorem Inv.processTrans (h : Inv X s) (hb : s.used b)
    (hheld : (s.trans b).state = .terminating → ∀ a ∈ s.macPending, a.trans ≠ b) :
    Inv X (s.processTrans b) ∧ Moved {b} s (s.processTrans b) ∧
      (s.frees b < (s.processTrans b).frees b ∨ Aged b s (s.processTrans b) ∧
        ((s.trans b).timer = some .process →
          ((s.processTrans b).trans b).remaining < (s.trans b).remaining)) := by
  by_cases hterm : (s.trans b).state = .terminating
  · rw [processTrans_terminating hterm]
    obtain ⟨hinv, hmoved, hfrees⟩ := (h.of_insert b).freed hb (hheld hterm)
    exact ⟨hinv, hmoved, Or.inl (by omega)⟩
  · have hlive := h.live b hb
    have hle := SixpTransState.rank_le hlive.notWaitFree
    have hlt : (s.trans b).state.rank < 11 := by
      cases hstate : (s.trans b).state <;> simp_all [SixpTransState.rank]
    have hterminating : SixpTransState.terminating.rank = 11 := rfl
    -- a final state is followed by terminating, any other by a timeout
    obtain ⟨t, heq, hlive', hcallback, hremaining, hless⟩ : ∃ t,
        s.processTrans b = s.setTrans b t ∧ t.Live ∧ t.callback = (s.trans b).callback ∧
          t.remaining ≤ (s.trans b).remaining ∧
          ((s.trans b).timer = some .process → t.remaining < (s.trans b).remaining) := by
      simp only [Sixp.processTrans, setTrans_trans_self, hterm, if_false]
      split
      · refine ⟨{ s.trans b with state := .terminating, timer := some .process }, ?_,
          ⟨by simp, by simp, rfl, fun _ => rfl⟩, rfl, ?_, ?_⟩
        · simp [transit_terminating, Sixp.setTrans]
        · simp only [SixpTrans.remaining, if_true]
          omega
        · intro _
          simp only [SixpTrans.remaining, if_true]
          omega
      · refine ⟨{ s.trans b with timer := some .timeout }, ?_,
          ⟨hlive.available, hlive.notWaitFree, rfl, fun ht => absurd ht hterm⟩, rfl, ?_, ?_⟩
        · simp [Sixp.setTrans, hterm]
        · simp [SixpTrans.remaining]
        · intro htimer
          simp [SixpTrans.remaining, htimer]
    rw [heq]
    refine ⟨h.setTrans hb hlive' (Or.inl hcallback), moved_setTrans s b t,
      Or.inr ⟨aged_setTrans hb hremaining, ?_⟩⟩
    intro htimer
    rw [setTrans_trans_self]
    exact hless htimer

/-- An abort releases a block that the MAC layer does not hold. -/
theorem Inv.abort (h : Inv X s) (hb : s.used b) (hX : b ∉ X) (hreact : Good react)
    (hheld : ∀ a ∈ s.macPending, a.trans ≠ b) :
    Inv X (s.sixpTransAbort react b) ∧ Moved {b} s (s.sixpTransAbort react b) ∧
      s.frees b < (s.sixpTransAbort react b).frees b := by
  obtain ⟨htinv, htmoved, htaged, htpending, -⟩ := h.transit hb .terminating
  simp only [sixpTransAbort]
  generalize htransit : (s.sixpTransTransitState b .terminating).2 = t at *
  have hterm : (t.trans b).state = .terminating := by
    rw [← htransit, transit_terminating]
    simp
  obtain ⟨hinv, hmoved⟩ := htinv.invokeCallback hreact hX
  generalize t.sixpTransInvokeCallback react b = u at *
  -- the callback leaves a terminating transaction alone
  have hquiet : (t.trans b).Quiet := by simp [SixpTrans.Quiet, hterm]
  have hsame := hmoved.trans b (by simp) htaged.used hquiet
  have hheld' : ∀ a ∈ u.macPending, a.trans ≠ b := by
    intro a ha hab
    subst hab
    exact hheld a (htpending ▸ hmoved.pending a ha (by simp) htaged.used hquiet) rfl
  have hfrees := (hmoved.aged b (by simp) htaged.used).frees
  rw [processTrans_terminating (by rw [hsame, hterm])]
  obtain ⟨hfinv, hfmoved, hffrees⟩ := hinv.freed (hmoved.aged b (by simp) htaged.used).used hheld'
  refine ⟨hfinv, (htmoved.compose (hmoved.mono_set (by simp))).compose hfmoved, ?_⟩
  rw [hffrees, hfrees, htaged.frees]
  omega

/-! ## The MAC layer calls back -/

/-- `mac_callback` on a block in use: the registered callback is called and forgotten. A
transaction that has not been sent stays as it is. -/
theorem Inv.macCallback (h : Inv X s) (hb : s.used b) (hX : b ∉ X) (hreact : Good react)
    (status : MacStatus) :
    Inv X (s.macCallback react b status) ∧ Moved {b} s (s.macCallback react b status) ∧
      Aged b s (s.macCallback react b status) ∧
      ((s.trans b).state = .init → ((s.macCallback react b status).trans b).state = .init ∧
        ∀ a ∈ (s.macCallback react b status).macPending, a.trans = b → a ∈ s.macPending) := by
  have hwait := (h.live b hb).notWaitFree
  simp only [Sixp.macCallback, hwait, if_false]
  -- the end, whatever the transition before it
  have hend : ∀ t, Inv X t → Moved {b} s t → Aged b s t →
      let u := (t.sixpTransInvokeCallback react b).sixpTransSetCallback b false
      Inv X u ∧ Moved {b} s u ∧ Aged b s u ∧ ((t.trans b).Quiet →
        (u.trans b).state = (t.trans b).state ∧
          ∀ a ∈ u.macPending, a.trans = b → a ∈ t.macPending) := by
    intro t ht hmoved haged
    obtain ⟨hinv, hinvoke⟩ := ht.invokeCallback hreact hX
    have hinvoked := hinvoke.aged b (by simp) haged.used
    obtain ⟨hset, hsetaged, hstate, hpending⟩ := setCallback_moved hinvoked.used false
    refine ⟨?_, hmoved.compose ((hinvoke.mono_set (by simp)).compose hset),
      haged.trans (hinvoked.trans hsetaged), ?_⟩
    · have hclear := hinv.setCallback hinvoked.used false
      rwa [Set.insert_sdiff_self_of_notMem hX] at hclear
    · intro hquiet
      refine ⟨by rw [hstate, hinvoke.trans b (by simp) haged.used hquiet], ?_⟩
      intro a ha hab
      rw [hpending] at ha
      subst hab
      exact hinvoke.pending a ha (by simp) haged.used hquiet
  by_cases hsame : stateAfterSent status (s.trans b).state = (s.trans b).state
  · simp only [hsame, ne_eq, not_true_eq_false, if_false, Bool.not_true, Bool.false_eq_true]
    obtain ⟨hinv, hmoved, haged, hquiet⟩ := hend s h (.refl {b} s) (.refl hb)
    refine ⟨hinv, hmoved, haged, ?_⟩
    intro hinit
    obtain ⟨hstate, hpending⟩ := hquiet (by simp [SixpTrans.Quiet, hinit])
    exact ⟨hstate.trans hinit, hpending⟩
  · simp only [ne_eq, hsame, not_false_eq_true, if_true]
    obtain ⟨htinv, htmoved, htaged, -, -⟩ := h.transit hb (stateAfterSent status (s.trans b).state)
    have hinit : (s.trans b).state ≠ .init := by
      intro hinit
      cases status <;> simp [hinit, stateAfterSent] at hsame
    split
    · obtain ⟨hinv, hmoved, haged, -, -⟩ := htinv.transit htaged.used .terminating
      exact ⟨hinv, htmoved.compose hmoved, htaged.trans haged, fun h => absurd h hinit⟩
    · obtain ⟨hinv, hmoved, haged, -⟩ := hend _ htinv htmoved htaged
      exact ⟨hinv, hmoved, haged, fun h => absurd h hinit⟩

/-- `sixtop_output` with a transaction. When it fails, one not sent yet is still at no
other place. -/
theorem Inv.sixtopOutput (h : Inv X s) (hb : s.used b) (hX : b ∉ X) (hreact : Good react)
    (mac : MacSend) :
    Inv X (s.sixtopOutput react b mac).2 ∧ Moved {b} s (s.sixtopOutput react b mac).2 ∧
      Aged b s (s.sixtopOutput react b mac).2 ∧
      ((s.trans b).state = .init → (s.sixtopOutput react b mac).1 = false →
        ∀ a ∈ (s.sixtopOutput react b mac).2.macPending, a.trans = b → a ∈ s.macPending) := by
  cases mac with
  | refused called =>
    cases called with
    | false => exact ⟨h, .refl {b} s, .refl hb, fun _ _ a ha _ => ha⟩
    | true =>
      obtain ⟨hinv, hmoved, haged, hinit⟩ := h.macCallback hb hX hreact .errFatal
      exact ⟨hinv, hmoved, haged, fun hi _ => (hinit hi).2⟩
  | held =>
    refine ⟨{ h with pending := ?_ }, ⟨fun _ => le_rfl, fun _ _ hu => ⟨hu, rfl, rfl, le_rfl⟩,
      fun _ _ _ _ => rfl, ?_⟩, ⟨hb, rfl, rfl, le_rfl⟩, by simp [Sixp.sixtopOutput]⟩
    · intro a ha
      rcases List.mem_append.mp ha with ha | ha
      · exact h.pending a ha
      · rw [List.mem_singleton.mp ha]
        exact ⟨hb, rfl⟩
    · intro a ha hT _ _
      rcases List.mem_append.mp ha with ha | ha
      · exact ha
      · exact absurd (by simp [List.mem_singleton.mp ha]) hT
  | returned status =>
    obtain ⟨hinv, hmoved, haged, -⟩ := h.macCallback hb hX hreact status
    exact ⟨hinv, hmoved, haged, by simp [Sixp.sixtopOutput]⟩

/-! ## Sending -/

/-- The end of `sixp_output`. A request that cannot be sent is aborted; the MAC layer has
no frame of it. -/
theorem Inv.sendTrans (h : Inv X s) (hb : s.used b) (hreact : Good react) (args : OutputArgs)
    (hrequest : args.type = .request → (s.trans b).state = .init ∧
      ∀ a ∈ s.macPending, a.trans ≠ b) :
    Inv X (s.sendTrans react args b) ∧ Moved {b} s (s.sendTrans react args b) ∧
      (args.type ≠ .request → Aged b s (s.sendTrans react args b)) := by
  have hset := h.setCallback hb args.func
  obtain ⟨hsmoved, hsaged, hsstate, hspending⟩ := setCallback_moved hb args.func
  obtain ⟨hinv, hmoved, haged, hunsent⟩ := hset.sixtopOutput hsaged.used
    (fun hin => hin.2 rfl) hreact args.mac
  simp only [Sixp.sendTrans]
  generalize hsend : (s.sixpTransSetCallback b args.func).sixtopOutput react b args.mac = r at *
  obtain ⟨sent, t⟩ := r
  simp only at hinv hmoved haged hunsent ⊢
  have hto := hsmoved.compose hmoved
  have hage := hsaged.trans haged
  have hX : Inv X t := { hinv with fresh := fun b' hb' => hinv.fresh b' fun hin => hb' hin.1 }
  have hlast : ∀ v, Inv X v → Moved {b} t v → Aged b t v →
      Inv X v ∧ Moved {b} s v ∧ (args.type ≠ .request → Aged b s v) :=
    fun v hv hm ha => ⟨hv, hto.compose hm, fun _ => hage.trans ha⟩
  split
  · split
    · obtain ⟨htinv, htmoved, htaged, -, -⟩ :=
        (hX.updateSeqno args.destAddr _).transit hage.used .requestSending
      exact hlast _ htinv ((moved_updateSeqno t _ _).compose htmoved)
        ⟨htaged.used, htaged.allocs, htaged.frees, htaged.remaining⟩
    · obtain ⟨htinv, htmoved, htaged, -, -⟩ := hX.transit hage.used .responseSending
      exact hlast _ htinv htmoved htaged
    · obtain ⟨htinv, htmoved, htaged, -, -⟩ := hX.transit hage.used .confirmationSending
      exact hlast _ htinv htmoved htaged
    · exact hlast t hX (.refl {b} t) (.refl hage.used)
  · rename_i hsent
    split
    · rename_i htype
      obtain ⟨hinit, hheld⟩ := hrequest htype
      have hheld' : ∀ a ∈ t.macPending, a.trans ≠ b := by
        intro a ha hab
        have hold := hunsent (hsstate.trans hinit) (by simpa using hsent) a ha hab
        exact hheld a (hspending ▸ hold) hab
      obtain ⟨hainv, hamoved, -⟩ := hinv.abort hage.used (fun hin => hin.2 rfl) hreact hheld'
      exact ⟨{ hainv with fresh := fun b' hb' => hainv.fresh b' fun hin => hb' hin.1 },
        hto.compose hamoved, fun hne => absurd htype hne⟩
    · exact hlast t hX (.refl {b} t) (.refl hage.used)

/-- A new transaction, which is listed and waits to be sent or for its request. -/
theorem Inv.alloc (h : Inv X s) {sfKnown cellListEmpty : Bool} {peerAddr : LinkAddr}
    {seqno cmd : BitVec 8}
    (halloc : s.sixpTransAlloc maxTransactions sfKnown peerAddr seqno cmd cellListEmpty =
      some (b, s')) :
    Inv X s' ∧ Moved ∅ s s' ∧ s.used b = false ∧ s'.used b ∧ (s'.trans b).state = .init ∧
      ∀ a ∈ s'.macPending, a.trans ≠ b := by
  simp only [sixpTransAlloc] at halloc
  split_ifs at halloc
  obtain ⟨k, hfind, heq⟩ := Option.map_eq_some_iff.mp halloc
  obtain ⟨rfl, rfl⟩ := Prod.mk.inj heq
  have hfree : s.used k = false := by simpa using List.find?_some hfind
  have hheld : ∀ a ∈ s.macPending, a.trans ≠ k := by
    intro a ha hab
    have := (h.pending a ha).1
    rw [hab, hfree] at this
    cases this
  have hnot : k ∉ s.transList := by simp [h.listed k, hfree]
  have hcb : ∀ b' r, (((s.setTrans k ⟨peerAddr, seqno, cmd, .init,
      determineTransMode cmd cellListEmpty, none, some .timeout⟩).trans b').callback = some r) →
      (s.trans b').callback = some r := by
    intro b' r hr
    by_cases hb' : b' = k
    · simp [hb'] at hr
    · rwa [setTrans_trans_of_ne _ _ hb'] at hr
  refine ⟨⟨?_, ?_, ?_, ?_, ?_, ?_, fun b' r hr => h.registered b' r (hcb b' r hr),
    fun b' hX r hr => h.fresh b' hX r (hcb b' r hr),
    fun b₁ b₂ r h₁ h₂ => h.distinct b₁ b₂ r (hcb b₁ r h₁) (hcb b₂ r h₂), h.invoked, h.once⟩,
    ⟨fun _ => le_rfl, ?_, ?_, fun a ha _ _ _ => ha⟩, hfree, by simp, by simp, hheld⟩
  · intro b'
    by_cases hb' : b' = k <;> simp [hb', h.listed]
  · exact List.nodup_append'.mpr ⟨h.nodup, by simp, by simpa using hnot⟩
  · intro b' hunused
    have hne : b' ≠ k := by
      rintro rfl
      simp at hunused
    have hold : s.used b' = false := by simpa [hne] using hunused
    simpa [Sixp.setTrans, hne] using h.unused b' hold
  · intro b' hused
    by_cases hb' : b' = k
    · simp only [hb', setTrans_trans_self]
      exact ⟨by simp, by simp, rfl, by simp⟩
    · have hold : s.used b' := by simpa [hb'] using hused
      simpa [Sixp.setTrans, hb'] using h.live b' hold
  · intro b'
    have hcount := h.counted b'
    by_cases hb' : b' = k
    · subst hb'
      simpa [Sixp.setTrans, hfree] using hcount
    · simpa [Sixp.setTrans, hb'] using hcount
  · intro a ha
    have hne := hheld a ha
    simpa [Sixp.setTrans, hne] using h.pending a ha
  · intro b' _ hused
    have hne : b' ≠ k := by
      rintro rfl
      simp [hfree] at hused
    exact ⟨by simp [hne, hused], by simp [hne], rfl, by simp [Sixp.setTrans, hne]⟩
  · intro b' _ hused _
    have hne : b' ≠ k := by
      rintro rfl
      simp [hfree] at hused
    simp [Sixp.setTrans, hne]

/-- Neighbors are no part of the invariant. -/
theorem Inv.outputNbr (h : Inv X s) {args : OutputArgs} {o : Option TransId}
    (hnbr : s.outputNbr args o = some s') : Inv X s' ∧ Moved ∅ s s' ∧ s'.used = s.used ∧
      s'.trans = s.trans := by
  simp only [Sixp.outputNbr] at hnbr
  split_ifs at hnbr
  all_goals cases hnbr
  · exact ⟨h.setNextSeqno _, moved_setNextSeqno s _, rfl, rfl⟩
  · exact ⟨h, .refl ∅ s, rfl, rfl⟩

/-- A packet that is no request belongs to a transaction that waits for it. -/
theorem Inv.outputTrans (h : Inv X s) {type : SixpPktType} {destAddr : LinkAddr}
    {o : Option TransId} (ho : s.outputTrans type destAddr = some o) :
    (o = none ∧ type = .request) ∨
      ∃ b, o = some b ∧ type ≠ .request ∧ s.used b ∧ ¬(s.trans b).Quiet := by
  have hused : ∀ b, s.sixpTransFind destAddr = some b → s.used b :=
    fun b hb => (h.listed b).mp (List.mem_of_find?_eq_some hb)
  simp only [Sixp.outputTrans] at ho
  split at ho
  · cases ho
    exact Or.inl ⟨rfl, rfl⟩
  · rename_i b hfind
    split_ifs at ho with hstate
    cases ho
    exact Or.inr ⟨b, rfl, by simp, hused b hfind, by simp [SixpTrans.Quiet, hstate]⟩
  · rename_i b hfind
    split_ifs at ho with hstate
    cases ho
    exact Or.inr ⟨b, rfl, by simp, hused b hfind, by simp [SixpTrans.Quiet, hstate]⟩
  · cases ho

/-- What `sixp_output` does: nothing but perhaps to add a neighbor, or to send the packet
of a transaction that waits for it, or that of a new one. -/
theorem sixpOutput_cases (react : Sixp → Sixp) (args : OutputArgs) (s : Sixp) :
    (s.sixpOutput maxTransactions react args).2 = s ∨
      ∃ o t, s.outputTrans args.type args.destAddr = some o ∧ s.outputNbr args o = some t ∧
        ((s.sixpOutput maxTransactions react args).2 = t ∨
          (∃ b, o = some b ∧
            (s.sixpOutput maxTransactions react args).2 = t.sendTrans react args b) ∨
          o = none ∧ ∃ b u, t.sixpTransAlloc maxTransactions args.sfKnown args.destAddr
              ((t.nextSeqno args.destAddr).getD 0) args.code args.cellListEmpty = some (b, u) ∧
            (s.sixpOutput maxTransactions react args).2 = u.sendTrans react args b) := by
  simp only [sixpOutput]
  split
  · exact Or.inl rfl
  · rename_i o htrans
    split
    · exact Or.inl rfl
    · rename_i t hnbr
      refine Or.inr ⟨o, t, htrans, hnbr, ?_⟩
      split
      · exact Or.inl rfl
      · split
        · exact Or.inr (Or.inl ⟨_, rfl, rfl⟩)
        · split
          · exact Or.inl rfl
          · rename_i b u halloc
            exact Or.inr (Or.inr ⟨rfl, b, u, halloc, rfl⟩)

/-- **One call of `sixp_output`**, with callbacks that are good. -/
theorem good_sixpOutput (hreact : Good react) (args : OutputArgs) :
    Good fun s => (s.sixpOutput maxTransactions react args).2 := by
  intro X s h
  simp only
  rcases @sixpOutput_cases maxTransactions react args s with heq |
    ⟨o, t, htrans, hnbr, hcases⟩
  · rw [heq]
    exact ⟨h, .refl ∅ s⟩
  obtain ⟨ht, htmoved, htused, httrans⟩ := h.outputNbr hnbr
  rcases hcases with heq | ⟨b, ho, heq⟩ | ⟨ho, b, u, halloc, heq⟩
  · rw [heq]
    exact ⟨ht, htmoved⟩
  · rw [heq]
    rcases h.outputTrans htrans with ⟨hnone, -⟩ | ⟨b', hsome, htype, hb, hquiet⟩
    · simp [ho] at hnone
    · obtain rfl : b' = b := Option.some.inj (hsome.symm.trans ho)
      obtain ⟨hinv, hmoved, haged⟩ := ht.sendTrans (htused ▸ hb) hreact args
        fun h => absurd h htype
      refine ⟨hinv, htmoved.compose ?_⟩
      -- the transaction waited for this packet
      have hne : ∀ b, (t.trans b).Quiet → b ∉ ({b'} : Set TransId) := by
        rintro b hq rfl
        exact hquiet (httrans ▸ hq)
      refine ⟨hmoved.mono, ?_, fun b _ hused hq => hmoved.trans b (hne b hq) hused hq,
        fun a ha _ hused hq => hmoved.pending a ha (hne _ hq) hused hq⟩
      intro b _ hused
      by_cases hbb : b = b'
      · exact hbb ▸ haged htype
      · exact hmoved.aged b hbb hused
  · rw [heq]
    rcases h.outputTrans htrans with ⟨-, htype⟩ | ⟨b', hsome, -⟩
    · obtain ⟨hu, humoved, hfree, hb, hinit, hheld⟩ := ht.alloc halloc
      obtain ⟨hinv, hmoved, -⟩ := hu.sendTrans hb hreact args fun _ => ⟨hinit, hheld⟩
      refine ⟨hinv, htmoved.compose ?_⟩
      -- the block was not in use before
      have hne : ∀ b', t.used b' → b' ∉ ({b} : Set TransId) := by
        rintro b' hused rfl
        simp [hfree] at hused
      have hall := (humoved.mono_set (Set.empty_subset {b})).compose hmoved
      exact ⟨hall.mono, fun b' _ hused => hall.aged b' (hne b' hused) hused,
        fun b' _ hused => hall.trans b' (hne b' hused) hused,
        fun a ha _ hused => hall.pending a ha (hne _ hused) hused⟩
    · simp [ho] at hsome

mutual

/-- A call with all the calls made in callbacks. -/
theorem good_run : ∀ call : OutputCall, Good (call.run maxTransactions)
  | .mk args reaction => by
    simpa only [OutputCall.run] using good_sixpOutput (good_runCalls reaction) args

theorem good_runCalls : ∀ calls : List OutputCall, Good (runCalls maxTransactions calls)
  | [] => good_id
  | call :: calls => by
    intro X s h
    simp only [runCalls]
    obtain ⟨hinv, hmoved⟩ := good_run call X s h
    obtain ⟨hinv', hmoved'⟩ := good_runCalls calls X _ hinv
    exact ⟨hinv', hmoved.compose hmoved'⟩

end

/-! ## Events -/

/-- A transaction that is found is in use. -/
theorem Inv.used_of_find (h : Inv X s) {addr : LinkAddr} (hfind : s.sixpTransFind addr = some b) :
    s.used b :=
  (h.listed b).mp (List.mem_of_find?_eq_some hfind)

theorem Inv.sendBackSeqnumError (h : Inv X s) (srcAddr : LinkAddr) (nbrRoom created : Bool)
    (mac : MacSend) :
    Inv X (s.sendBackSeqnumError maxTransactions srcAddr nbrRoom created mac) ∧
      Moved ∅ s (s.sendBackSeqnumError maxTransactions srcAddr nbrRoom created mac) := by
  simp only [Sixp.sendBackSeqnumError]
  split
  · exact ⟨h, .refl ∅ s⟩
  · exact good_sixpOutput good_id _ X s h

/-- A transition, seen from outside: every transaction moves on. -/
theorem Inv.transit_aged (h : Inv X s) (hb : s.used b) (newState : SixpTransState) :
    let t := (s.sixpTransTransitState b newState).2
    Inv X t ∧ (∀ b, s.frees b ≤ t.frees b) ∧ ∀ b, s.used b → Aged b s t := by
  obtain ⟨hinv, hmoved, haged, -, -⟩ := h.transit hb newState
  refine ⟨hinv, hmoved.mono, ?_⟩
  intro b' hused
  by_cases hb' : b' = b
  · exact hb' ▸ haged
  · exact hmoved.aged b' hb' hused

/-- A received packet frees nothing. -/
theorem Inv.input (h : Inv X s) (input : SixpInput) (srcAddr : LinkAddr) (nbrRoom created : Bool)
    (mac : MacSend) :
    let t := s.sixpInput maxTransactions input srcAddr nbrRoom created mac
    Inv X t ∧ (∀ b, s.frees b ≤ t.frees b) ∧ ∀ b, s.used b → Aged b s t := by
  have hsame : Inv X s ∧ (∀ b, s.frees b ≤ s.frees b) ∧ ∀ b, s.used b → Aged b s s :=
    ⟨h, fun _ => le_rfl, fun _ => .refl⟩
  have herror : ∀ {t}, Inv X t →
      let u := t.sendBackSeqnumError maxTransactions srcAddr nbrRoom created mac
      Inv X u ∧ (∀ b, t.frees b ≤ u.frees b) ∧ ∀ b, t.used b → Aged b t u := by
    intro t ht
    obtain ⟨hinv, hmoved⟩ := ht.sendBackSeqnumError srcAddr nbrRoom created mac
    exact ⟨hinv, hmoved.mono, fun b => hmoved.aged b (by simp)⟩
  cases input with
  | badVersion => exact hsame
  | malformed => exact hsame
  | pkt type cmd seqno sfKnown cellListEmpty =>
    simp only [sixpInput]
    split
    · exact hsame
    split
    · exact hsame
    · split
      · exact herror h
      · exact hsame
    · -- a new request
      generalize hreset : (if cmd = sixpPktCmdClear then s.updateSeqno srcAddr fun _ => 0 else s) = t
      have ht : Inv X t ∧ Moved ∅ s t := by
        rw [← hreset]
        split
        · exact ⟨h.updateSeqno _ _, moved_updateSeqno s _ _⟩
        · exact ⟨h, .refl ∅ s⟩
      have hmono := ht.2.mono
      have haged := fun b => ht.2.aged b (by simp)
      split
      · exact ⟨ht.1, hmono, haged⟩
      · rename_i b u halloc
        obtain ⟨hu, humoved, -, hb, -, -⟩ := ht.1.alloc halloc
        have huaged := fun b => humoved.aged b (by simp)
        obtain ⟨hv, hvmono, hvaged⟩ := hu.transit_aged hb .requestReceived
        have hage : ∀ b', s.used b' → Aged b' s (u.sixpTransTransitState b .requestReceived).2 :=
          fun b' hused =>
            let h₁ := haged b' hused
            let h₂ := huaged b' h₁.used
            (h₁.trans h₂).trans (hvaged b' h₂.used)
        have hfrees : ∀ b', s.frees b' ≤ (u.sixpTransTransitState b .requestReceived).2.frees b' :=
          fun b' => (hmono b').trans ((humoved.mono b').trans (hvmono b'))
        split
        · obtain ⟨hw, hwmono, hwaged⟩ := herror hv
          exact ⟨hw, fun b' => (hfrees b').trans (hwmono b'),
            fun b' hused => (hage b' hused).trans (hwaged b' (hage b' hused).used)⟩
        · exact ⟨hv, hfrees, hage⟩
    · exact hsame
    · rename_i b hfind
      split
      · exact hsame
      · exact h.transit_aged (h.used_of_find hfind) .responseReceived
    · rename_i b hfind
      split
      · exact hsame
      · exact h.transit_aged (h.used_of_find hfind) .confirmationReceived

/-- One round of the initialisation: the block is counted as before, and no other changes. -/
theorem stopAndFree_spec (hb : s.used b) :
    let t := s.stopAndFree b
    (∀ b', (t.frees b' + if t.used b' then 1 else 0) = s.frees b' + if s.used b' then 1 else 0) ∧
      (∀ b' ≠ b, t.used b' = s.used b') ∧ t.allocs = s.allocs ∧ t.macPending = s.macPending ∧
      t.registered = s.registered ∧ t.invoked = s.invoked := by
  simp only [stopAndFree, sixpTransFree, Sixp.setTrans, Function.update_self]
  split_ifs
  all_goals
    refine ⟨?_, fun b' hb' => by simp [hb'], rfl, rfl, rfl, rfl⟩
    intro b'
    by_cases hb' : b' = b <;> simp [hb', hb]

theorem foldl_stopAndFree {bs : List TransId} (hnodup : bs.Nodup) (hbs : ∀ b ∈ bs, s.used b) :
    let t := bs.foldl stopAndFree s
    (∀ b', (t.frees b' + if t.used b' then 1 else 0) = s.frees b' + if s.used b' then 1 else 0) ∧
      t.allocs = s.allocs ∧ t.macPending = s.macPending ∧ t.registered = s.registered ∧
      t.invoked = s.invoked := by
  induction bs generalizing s with
  | nil => exact ⟨fun _ => rfl, rfl, rfl, rfl, rfl⟩
  | cons b bs ih =>
    obtain ⟨hnot, hnodup⟩ := List.nodup_cons.mp hnodup
    obtain ⟨hcount, hused, hallocs, hpending, hregistered, hinvoked⟩ :=
      stopAndFree_spec (hbs b mem_cons_self)
    have hrest : ∀ b' ∈ bs, (s.stopAndFree b).used b' := by
      intro b' hb'
      have hne : b' ≠ b := fun heq => hnot (heq ▸ hb')
      rw [hused b' hne]
      exact hbs b' (mem_cons_of_mem b hb')
    obtain ⟨hcount', hallocs', hpending', hregistered', hinvoked'⟩ := ih hnodup hrest
    exact ⟨fun b' => (hcount' b').trans (hcount b'), hallocs'.trans hallocs,
      hpending'.trans hpending, hregistered'.trans hregistered, hinvoked'.trans hinvoked⟩

/-- The initialisation releases every block. -/
theorem Inv.init (h : Inv X s) (hheld : s.macPending = []) :
    Inv X s.sixpInit ∧ ∀ b, s.sixpInit.frees b = s.frees b + if s.used b then 1 else 0 := by
  obtain ⟨hcount, hallocs, hpending, hregistered, hinvoked⟩ :=
    foldl_stopAndFree h.nodup fun b hb => (h.listed b).mp hb
  have hfrees : ∀ b, s.sixpInit.frees b = s.frees b + if s.used b then 1 else 0 := by
    intro b
    simp only [sixpInit, ← hcount b]
    split <;> rfl
  refine ⟨⟨by simp [sixpInit], nodup_nil, fun _ _ => rfl, by simp [sixpInit], ?_, ?_,
    by simp [sixpInit, SixpTrans.zero], by simp [sixpInit, SixpTrans.zero],
    by simp [sixpInit, SixpTrans.zero], ?_, ?_⟩, hfrees⟩
  · intro b
    rw [hfrees b, ← h.counted b]
    simp [sixpInit, hallocs]
  · intro a ha
    simp only [sixpInit, hpending, hheld] at ha
    cases ha
  · intro r hr
    simp only [sixpInit, hinvoked, hregistered] at hr ⊢
    exact h.invoked r hr
  · simp only [sixpInit, hinvoked]
    exact h.once

/-- The event does not release a block that is the argument of a sent callback to come: when
the timer of a terminating transaction expires, or the transaction is aborted, the MAC layer
has reported all its frames, and when 6P is initialised again, all frames of all
transactions. -/
def ReleaseSafe (s : Sixp) : SixpEvent → Prop
  | .timer b _ => (s.trans b).state = .terminating → ∀ a ∈ s.macPending, a.trans ≠ b
  | .abort b _ => ∀ a ∈ s.macPending, a.trans ≠ b
  | .init => s.macPending = []
  | _ => True

instance (s : Sixp) : (e : SixpEvent) → Decidable (ReleaseSafe s e)
  | .timer b _ =>
    inferInstanceAs (Decidable ((s.trans b).state = .terminating → ∀ a ∈ s.macPending, a.trans ≠ b))
  | .abort b _ => inferInstanceAs (Decidable (∀ a ∈ s.macPending, a.trans ≠ b))
  | .init => inferInstanceAs (Decidable (s.macPending = []))
  | .output _ | .input _ _ _ _ _ | .macSent _ _ _ | .terminate _ => inferInstanceAs (Decidable True)

end Sixp

/-- The event is an expiry of the timer of a block. -/
def SixpEvent.expires (b : TransId) : SixpEvent → Bool
  | .timer b' _ => b' = b
  | _ => false

namespace Sixp

variable {maxTransactions : ℕ} {s t : Sixp} {b : TransId}

/-- A transaction at the end of an event: released, or further on. -/
def Progress (e : SixpEvent) (b : TransId) (s t : Sixp) : Prop :=
  s.frees b < t.frees b ∨
    Aged b s t ∧ (e.expires b → (t.trans b).remaining < (s.trans b).remaining)

/-- The timer of a transaction that is not at its end expires. -/
theorem Inv.timeout (h : Inv ∅ s) (hb : s.used b) {react : Sixp → Sixp} (hreact : Good react)
    (htimer : (s.trans b).timer = some .timeout) :
    let t := s.handleTransTimeout react b
    Inv ∅ t ∧ (∀ b', s.frees b' ≤ t.frees b') ∧ (∀ b', s.used b' → Aged b' s t) ∧
      (t.trans b).remaining < (s.trans b).remaining := by
  obtain ⟨hinv, hmoved⟩ := hreact ∅ s h
  obtain ⟨htinv, htmono, htaged⟩ :=
    hinv.transit_aged (hmoved.aged b (by simp) hb).used .terminating
  refine ⟨htinv, fun b' => (hmoved.mono b').trans (htmono b'), ?_, ?_⟩
  · intro b' hused
    have haged := hmoved.aged b' (by simp) hused
    exact haged.trans (htaged b' haged.used)
  · have hlive := h.live b hb
    have hne : (s.trans b).state ≠ .terminating := by
      intro hterm
      simpa [htimer] using hlive.terminating hterm
    have hrank : (s.trans b).state.rank < 11 := by
      have hwait := hlive.notWaitFree
      cases hstate : (s.trans b).state <;> simp_all [SixpTransState.rank]
    simp only [handleTransTimeout, transit_terminating, setTrans_trans_self, SixpTrans.remaining,
      SixpTransState.rank, htimer]
    simp only [SixpTransState.rank] at hrank
    simp
    omega

/-- **What an event does** to the invariant and to each transaction. -/
theorem Inv.step (h : Inv ∅ s) {e : SixpEvent} (hsafe : ReleaseSafe s e)
    (hstep : s.step maxTransactions e = some t) :
    Inv ∅ t ∧ (∀ b, s.frees b ≤ t.frees b) ∧ ∀ b, s.used b → Progress e b s t := by
  have hmove : Inv ∅ t ∧ Moved ∅ s t → (∀ b, e.expires b = false) →
      Inv ∅ t ∧ (∀ b, s.frees b ≤ t.frees b) ∧ ∀ b, s.used b → Progress e b s t := by
    rintro ⟨hinv, hmoved⟩ hexp
    exact ⟨hinv, hmoved.mono, fun b hb => Or.inr ⟨hmoved.aged b (by simp) hb, by simp [hexp]⟩⟩
  have hused : ∀ {k}, (s.trans k).timer ≠ none → s.used k := by
    intro k hk
    by_contra hunused
    rw [h.unused k (by simpa using hunused)] at hk
    exact hk rfl
  cases e with
  | output call =>
    cases hstep
    exact hmove (good_run call ∅ s h) fun _ => rfl
  | input input srcAddr nbrRoom created mac =>
    cases hstep
    obtain ⟨hinv, hmono, haged⟩ := @Inv.input maxTransactions _ _ h input srcAddr nbrRoom
      created mac
    exact ⟨hinv, hmono, fun b hb => Or.inr ⟨haged b hb, by simp [SixpEvent.expires]⟩⟩
  | macSent arg status reaction =>
    simp only [Sixp.step] at hstep
    split_ifs at hstep with harg
    cases hstep
    have herased : Inv ∅ { s with macPending := s.macPending.erase arg } :=
      { h with pending := fun a ha => h.pending a (mem_of_mem_erase ha) }
    obtain ⟨hinv, hmoved, haged, -⟩ := herased.macCallback (h.pending arg harg).1 (by simp)
      (@good_runCalls maxTransactions reaction) status
    refine ⟨hinv, hmoved.mono, fun b hb => Or.inr ⟨?_, by simp [SixpEvent.expires]⟩⟩
    by_cases hbb : b = arg.trans
    · rw [hbb]
      exact ⟨haged.used, haged.allocs, haged.frees, haged.remaining⟩
    · have := hmoved.aged b hbb hb
      exact ⟨this.used, this.allocs, this.frees, this.remaining⟩
  | timer k reaction =>
    simp only [Sixp.step] at hstep
    split at hstep
    · cases hstep
    · rename_i htimer
      cases hstep
      have hk : s.used k := hused (by simp [htimer])
      obtain ⟨hinv, hmono, haged, hless⟩ := h.timeout hk
        (@good_runCalls maxTransactions reaction) htimer
      refine ⟨hinv, hmono, fun b hb => Or.inr ⟨haged b hb, ?_⟩⟩
      intro hexp
      obtain rfl : k = b := by simpa [SixpEvent.expires] using hexp
      exact hless
    · rename_i htimer
      cases hstep
      have hk : s.used k := hused (by simp [htimer])
      obtain ⟨hinv, hmoved, hprogress⟩ := h.processTrans hk hsafe
      refine ⟨hinv, hmoved.mono, ?_⟩
      intro b hb
      by_cases hbk : b = k
      · subst hbk
        rcases hprogress with hfreed | ⟨haged, hless⟩
        · exact Or.inl hfreed
        · exact Or.inr ⟨haged, fun _ => hless htimer⟩
      · refine Or.inr ⟨hmoved.aged b hbk hb, ?_⟩
        intro hexp
        exact absurd (by simpa [SixpEvent.expires, eq_comm] using hexp) hbk
  | terminate k =>
    simp only [Sixp.step] at hstep
    split_ifs at hstep with hk
    cases hstep
    obtain ⟨hinv, hmono, haged⟩ := h.transit_aged ((h.listed k).mp hk) .terminating
    exact ⟨hinv, hmono, fun b hb => Or.inr ⟨haged b hb, by simp [SixpEvent.expires]⟩⟩
  | abort k reaction =>
    simp only [Sixp.step] at hstep
    split_ifs at hstep with hk
    cases hstep
    obtain ⟨hinv, hmoved, hfreed⟩ := h.abort ((h.listed k).mp hk) (by simp)
      (@good_runCalls maxTransactions reaction) hsafe
    refine ⟨hinv, hmoved.mono, ?_⟩
    intro b hb
    by_cases hbk : b = k
    · exact Or.inl (hbk ▸ hfreed)
    · exact Or.inr ⟨hmoved.aged b hbk hb, by simp [SixpEvent.expires]⟩
  | init =>
    cases hstep
    obtain ⟨hinv, hfrees⟩ := h.init hsafe
    refine ⟨hinv, fun b => ?_, fun b hb => Or.inl ?_⟩
    · rw [hfrees b]
      exact Nat.le_add_right _ _
    · rw [hfrees b, if_pos hb]
      omega

theorem inv_start : Inv ∅ start := by
  constructor <;> simp [start, SixpTrans.zero]

/-- In a run a block is released, or its timer has expired no more often than the
transaction allows. -/
theorem progress_run {es : List SixpEvent} (h : Inv ∅ s) (hb : s.used b)
    (halong : Along (step maxTransactions) ReleaseSafe s es)
    (hrun : run (step maxTransactions) s es = some t) :
    (∀ b, s.frees b ≤ t.frees b) ∧ (s.frees b < t.frees b ∨
      t.used b ∧ es.countP (SixpEvent.expires b) + (t.trans b).remaining ≤ (s.trans b).remaining) := by
  have hmono : ∀ {es : List SixpEvent} {s}, Inv ∅ s → Along (step maxTransactions) ReleaseSafe s es →
      run (step maxTransactions) s es = some t → ∀ b, s.frees b ≤ t.frees b := by
    intro es
    induction es with
    | nil =>
      intro s _ _ hrun b
      cases hrun
      exact le_rfl
    | cons e es ih =>
      intro s h halong hrun b
      obtain ⟨u, hu, hrun⟩ := run_cons_eq_some.mp hrun
      obtain ⟨hsafe, halong⟩ := (along_cons hu).mp halong
      obtain ⟨hinv, hle, -⟩ := h.step hsafe hu
      exact (hle b).trans (ih hinv halong hrun b)
  refine ⟨hmono h halong hrun, ?_⟩
  induction es generalizing s with
  | nil =>
    cases hrun
    exact Or.inr ⟨hb, by simp⟩
  | cons e es ih =>
    obtain ⟨u, hu, hrun⟩ := run_cons_eq_some.mp hrun
    obtain ⟨hsafe, halong⟩ := (along_cons hu).mp halong
    obtain ⟨hinv, -, hprogress⟩ := h.step hsafe hu
    have hle := hmono hinv halong hrun b
    rcases hprogress b hb with hfreed | ⟨haged, hless⟩
    · exact Or.inl (hfreed.trans_le hle)
    · rw [← haged.frees]
      refine (ih hinv haged.used halong hrun).imp_right fun ⟨hused, hcount⟩ => ⟨hused, ?_⟩
      rw [countP_cons]
      have hrem := haged.remaining
      by_cases hexp : e.expires b
      · have := hless hexp
        simp only [hexp, if_true]
        omega
      · simp only [hexp, Bool.false_eq_true, if_false]
        omega

/-- **The lifetime of a transaction.** In a run whose events are safe, a block is neither
freed nor allocated anew while the MAC layer has it as an argument; every allocation but
the present one has been released once; the timer of an allocated block runs, and as long
as the block is not released it expires fewer times than the transaction allows, whatever
else happens; and no registered callback is called twice. -/
theorem transaction_lifetime (maxTransactions : ℕ) (es : List SixpEvent)
    (hrun : run (step maxTransactions) start es = some s)
    (halong : Along (step maxTransactions) ReleaseSafe start es) :
    (∀ a ∈ s.macPending, s.used a.trans ∧ s.allocs a.trans = a.alloc) ∧
    (∀ b, s.allocs b = s.frees b + if s.used b then 1 else 0) ∧
    (∀ b, s.used b → (s.trans b).timer ≠ none ∧ (s.trans b).remaining ≤ 23) ∧
    (∀ b es' t, s.used b → run (step maxTransactions) s es' = some t →
      Along (step maxTransactions) ReleaseSafe s es' → t.frees b = s.frees b →
      es'.countP (SixpEvent.expires b) < (s.trans b).remaining) ∧
    s.invoked.Nodup := by
  have h : Inv ∅ s := run_induction (Inv ∅)
    (fun _ _ _ hP hi hstep => (hi.step hP hstep).1) inv_start halong hrun
  have hpositive : ∀ {t : Sixp} {b}, Inv ∅ t → t.used b → 0 < (t.trans b).remaining := by
    intro t b ht hb
    have := SixpTransState.rank_le (ht.live b hb).notWaitFree
    simp only [SixpTrans.remaining]
    omega
  refine ⟨h.pending, h.counted, ?_, ?_, h.once⟩
  · intro b hb
    have hlive := h.live b hb
    refine ⟨Option.isSome_iff_ne_none.mp hlive.timer, ?_⟩
    have hrank : 1 ≤ (s.trans b).state.rank := by
      have := hlive.available
      cases hstate : (s.trans b).state <;> simp_all [SixpTransState.rank]
    simp only [SixpTrans.remaining]
    split <;> omega
  · intro b es' t hb hrun' halong' hfrees
    have ht : Inv ∅ t := run_induction (Inv ∅)
      (fun _ _ _ hP hi hstep => (hi.step hP hstep).1) h halong' hrun'
    rcases (progress_run h hb halong' hrun').2 with hfreed | ⟨hused, hle⟩
    · exact absurd hfrees hfreed.ne'
    · have := hpositive ht hused
      omega

/-- A request to a peer, with a sent callback. -/
def request (destAddr : LinkAddr) (mac : MacSend) : OutputCall :=
  .mk ⟨.request, sixpPktCmdAdd, destAddr, true, true, true, true, false, mac⟩ []

/-- A request is sent and answered; the MAC layer reports it before the response. -/
def answered : List SixpEvent :=
  [.output (request (fun _ => 1) .held), .timer 0 [], .macSent ⟨0, 1⟩ .ok [],
    .input (.pkt .response 0 0 true false) (fun _ => 1) true true .held]

theorem transaction_lifetime_answered :
    ∃ s t, run (step 1) start answered = some s ∧ run (step 1) s [.timer 0 []] = some t ∧
      s.used 0 ∧ t.frees 0 = 0 ∧ 1 < (s.trans 0).remaining ∧ s.invoked.Nodup := by
  have hsome : ∃ t, run (step 1) start (answered ++ [.timer 0 []]) = some t :=
    Option.isSome_iff_exists.mp (by decide +kernel)
  obtain ⟨t, ht⟩ := hsome
  have htfrees : (run (step 1) start (answered ++ [.timer 0 []])).map (·.frees 0) = some 0 := by
    decide +kernel
  have hs : (run (step 1) start answered).map (fun s => (s.used 0, s.frees 0)) = some (true, 0) := by
    decide +kernel
  have halong : Along (step 1) ReleaseSafe start (answered ++ [.timer 0 []]) := by decide +kernel
  obtain ⟨s, hrun, hrun'⟩ := run_append.mp ht
  obtain ⟨hto, hfrom⟩ := (along_append hrun).mp halong
  simp only [hrun, Option.map_some, Option.some.injEq, Prod.mk.injEq] at hs
  simp only [ht, Option.map_some, Option.some.injEq] at htfrees
  obtain ⟨-, -, -, hcount, honce⟩ := transaction_lifetime 1 answered hrun hto
  exact ⟨s, t, hrun, hrun', hs.1, htfrees,
    hcount 0 [.timer 0 []] t hs.1 hrun' hfrom (htfrees.trans hs.2.symm), honce⟩

/-- A request that stays in a queue of the MAC layer until the transaction is over, and a
request to another peer. -/
def timedOut : List SixpEvent :=
  [.output (request (fun _ => 1) .held), .timer 0 [], .timer 0 [], .timer 0 [],
    .output (request (fun _ => 2) .held)]

/-- **A timeout frees a block that the MAC layer holds**, and the next transaction gets it.
When the first frame fails, the second transaction is ended, its callback called, and its
block freed, with the second frame still queued. -/
theorem timeout_frees_block_at_mac :
    (∃ s, run (step 1) start timedOut = some s ∧ s.macPending = [⟨0, 1⟩, ⟨0, 2⟩] ∧
      s.allocs 0 = 2 ∧ s.frees 0 = 1) ∧
    ∃ s, run (step 1) start (timedOut ++ [.macSent ⟨0, 1⟩ .noAck [], .timer 0 []]) = some s ∧
      s.macPending = [⟨0, 2⟩] ∧ s.used 0 = false ∧ s.invoked = [1] := by
  have hfirst : (run (step 1) start timedOut).map
      (fun s => (s.macPending, s.allocs 0, s.frees 0)) = some ([⟨0, 1⟩, ⟨0, 2⟩], 2, 1) := by
    decide +kernel
  have hsecond : (run (step 1) start (timedOut ++ [.macSent ⟨0, 1⟩ .noAck [], .timer 0 []])).map
      (fun s => (s.macPending, s.used 0, s.invoked)) = some ([⟨0, 2⟩], false, [1]) := by
    decide +kernel
  obtain ⟨s, hs, heq⟩ := Option.map_eq_some_iff.mp hfirst
  obtain ⟨t, ht, heq'⟩ := Option.map_eq_some_iff.mp hsecond
  simp only [Prod.mk.injEq] at heq heq'
  exact ⟨⟨s, hs, heq⟩, ⟨t, ht, heq'⟩⟩

end Sixp

end Asap.Sixtop
